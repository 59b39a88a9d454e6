import LocalModelWorks.Plan.Soundness

/-!
# Automatic placement is complete, but for device indices

Whenever some assignment of devices to the ranks exists, the greedy choice finds one: by
count, because a node with fewer ranks than it has in the assignment still has enough
devices; for whole nodes, because each rank of the assignment has a node of its own.
-/

namespace LocalModelWorks.Plan

open List
open Recipe (Text Manifest Workload)
open Runs Pool

structure Slot where
  candidate : Candidate
  devices : List Text

def Slot.Serves (d : Demand) (slot : Slot) : Prop :=
  if d.devAll then ∀ a ∈ slot.candidate.free, a.uuid ∈ slot.devices
  else if d.devIndices ≠ [] then
    ∀ index ∈ d.devIndices, ∃ a ∈ slot.candidate.free, a.index = index ∧ a.uuid ∈ slot.devices
  else d.count ≤ slot.devices.length

def Slot.Apart (x y : Slot) : Prop := x.candidate.nodeID = y.candidate.nodeID → ∀ u ∈ x.devices, u ∉ y.devices

structure Assignment (d : Demand) (cs : List Candidate) (n : Nat) where
  slots : List Slot
  length : slots.length = n
  candidate : ∀ slot ∈ slots, slot.candidate ∈ cs
  free : ∀ slot ∈ slots, ∀ u ∈ slot.devices, ∃ a ∈ slot.candidate.free, a.uuid = u
  distinct : ∀ slot ∈ slots, slot.devices.Nodup
  serves : d.required = true → ∀ slot ∈ slots, slot.Serves d
  apart : slots.Pairwise Slot.Apart

variable {d : Demand} {cs sorted : List Candidate} {ranks : List Int} {st : Placing} {n : Nat}
  {placement : Placement} {rank : Int} {m : Manifest} {w : Workload}

theorem placeRank_placed {best : Candidate} {pool : Pool} (hFind : sorted.find? (eligible d st.pool) = some best)
    (hAlloc : st.pool.allocOne d best rank = .ok (placement, pool)) :
    placeRank d sorted st rank = ⟨pool, st.placements ++ [placement], st.diagnostics⟩ := by
  rw [placeRank, hFind]
  dsimp only
  rw [hAlloc]

theorem placeAutomatic_length {I : Placing → Prop} (hStart : I .start)
    (hRoom : ∀ st, I st → st.placements.length < n → ∃ c ∈ cs, eligible d st.pool c = true)
    (hStep : ∀ st rank best, I st → best ∈ cs → eligible d st.pool best = true → ∃ placement pool,
      st.pool.allocOne d best rank = .ok (placement, pool) ∧ I ⟨pool, st.placements ++ [placement], st.diagnostics⟩)
    (hRanks : ranks.length ≤ n) : (placeAutomatic d cs ranks).placements.length = ranks.length := by
  have hRun : ∀ st : Placing, I st → st.placements.length + ranks.length ≤ n →
      (ranks.foldl (placeRank d (sortCandidates cs)) st).placements.length = st.placements.length + ranks.length := by
    clear hRanks
    induction ranks with
    | nil => exact fun st _ _ => rfl
    | cons rank rest ih =>
      intro st hInv hLess
      rw [length_cons] at hLess ⊢
      obtain ⟨c, hMem, hEligible⟩ := hRoom st hInv (by omega)
      cases hFind : (sortCandidates cs).find? (eligible d st.pool) with
      | none => exact absurd hEligible (find?_eq_none.mp hFind c ((mem_insertionSort _).mpr hMem))
      | some best =>
        have hBest : best ∈ cs := (mem_insertionSort _).mp (mem_of_find?_eq_some hFind)
        obtain ⟨placement, pool, hAlloc, hNext⟩ := hStep st rank best hInv hBest (find?_some hFind)
        have hLen : (st.placements ++ [placement]).length = st.placements.length + 1 := length_append
        rw [foldl_cons, placeRank_placed hFind hAlloc, ih _ hNext (by dsimp only; omega)]
        dsimp only
        omega
  have hAll := hRun .start hStart (by simpa [Placing.start] using hRanks)
  rw [placeAutomatic, hAll]
  simp [Placing.start]

variable {c : Candidate}

theorem complete_none (hNone : d.required = false) (assignment : Assignment d cs ranks.length) :
    (placeAutomatic d cs ranks).placements.length = ranks.length := by
  refine placeAutomatic_length (I := fun _ => True) trivial (fun st _ hRoom => ?_) (fun st rank best _ _ _ => ?_) le_rfl
  · rw [← assignment.length] at hRoom
    obtain ⟨slot, hSlot⟩ := exists_mem_of_length_pos (Nat.zero_lt_of_lt hRoom)
    exact ⟨slot.candidate, assignment.candidate slot hSlot, by simp [eligible, hNone]⟩
  · simp [allocOne, hNone]

def Pool.takenOn (s : Pool) (nodeID : Text) : List Text := (s.taken.filter fun entry => entry.1 = nodeID).map Prod.snd

theorem Pool.takenOn_takes {s s' : Pool} (h : Takes d s c rank placement s') (nodeID : Text) :
    (s'.takenOn nodeID).length =
    (if c.nodeID = nodeID then placement.accelerators.length else 0) + (s.takenOn nodeID).length := by
  rw [takenOn, h.taken, filter_append, takenOn, filter_map]
  split
  · simp [*]
  · simp [*]

def Frugal (d : Demand) (st : Placing) : Prop :=
  ∀ nodeID, (st.pool.takenOn nodeID).length ≤ (st.placements.map (·.nodeID)).count nodeID * d.count

theorem length_le_flatMap {α β : Type} {xs : List α} {f : α → List β} {k : Nat} (h : ∀ x ∈ xs, k ≤ (f x).length) :
    xs.length * k ≤ (xs.flatMap f).length := by
  induction xs with
  | nil => simp
  | cons x rest ih =>
    rw [flatMap_cons, length_append, length_cons, Nat.succ_mul]
    have hRest := ih fun y hy => h y (mem_cons_of_mem _ hy)
    have hOwn := h x mem_cons_self
    omega

theorem exists_count_lt {α : Type} [BEq α] [LawfulBEq α] {xs ys : List α} (h : ys.length < xs.length) :
    ∃ x ∈ xs, ys.count x < xs.count x := by
  by_contra hNone
  push Not at hNone
  exact absurd (subperm_ext_iff.mpr hNone).length_le (by omega)

theorem length_le_freeAfter {s : Pool} {devices : List Text} (hNodup : devices.Nodup)
    (hFree : ∀ u ∈ devices, ∃ a ∈ c.free, a.uuid = u) :
    devices.length ≤ (s.freeAfter c).length + (s.takenOn c.nodeID).length := by
  have hSplit : devices.Subperm ((s.freeAfter c).map (·.uuid) ++ s.takenOn c.nodeID) := by
    apply subperm_of_subset hNodup
    intro u hu
    by_cases hTaken : (c.nodeID, u) ∈ s.taken
    · exact mem_append_right _ (by simpa [takenOn] using hTaken)
    · obtain ⟨a, ha, rfl⟩ := hFree u hu
      exact mem_append_left _ (mem_map.mpr ⟨a, mem_freeAfter.mpr ⟨ha, hTaken⟩, rfl⟩)
  have hLen := hSplit.length_le
  rwa [length_append, length_map] at hLen

namespace Assignment

variable (assignment : Assignment d cs n)

def on (nodeID : Text) : List Slot := assignment.slots.filter fun slot => slot.candidate.nodeID = nodeID

theorem length_on (nodeID : Text) :
    (assignment.on nodeID).length = (assignment.slots.map (·.candidate.nodeID)).count nodeID := by
  rw [on, ← countP_eq_length_filter, List.count, countP_map]
  refine countP_congr fun slot _ => ?_
  simp

theorem nodup_on (nodeID : Text) : ((assignment.on nodeID).flatMap (·.devices)).Nodup := by
  rw [nodup_flatMap]
  constructor
  · intro slot hSlot
    exact assignment.distinct slot (mem_filter.mp hSlot).1
  have hApart := assignment.apart.sublist (filter_sublist (p := fun slot => slot.candidate.nodeID = nodeID))
  refine hApart.imp_of_mem ?_
  intro x y hx hy hApart u hux huy
  have hxNode : x.candidate.nodeID = nodeID := by simpa using (mem_filter.mp hx).2
  have hyNode : y.candidate.nodeID = nodeID := by simpa using (mem_filter.mp hy).2
  exact hApart (hxNode.trans hyNode.symm) u hux huy

end Assignment

theorem candidate_eq (hIDs : (cs.map (·.nodeID)).Nodup) {c c' : Candidate} (hc : c ∈ cs) (hc' : c' ∈ cs)
    (hSame : c.nodeID = c'.nodeID) : c = c' := inj_on_of_nodup_map hIDs hc hc' hSame

theorem Frugal.room (hIDs : (cs.map (·.nodeID)).Nodup) (hCount : d.required = true) (hAll : d.devAll = false)
    (hIndices : d.devIndices = []) (assignment : Assignment d cs n) (hFrugal : Frugal d st)
    (hRoom : st.placements.length < n) : ∃ c ∈ cs, d.count ≤ (st.pool.freeAfter c).length := by
  have hFewer : (st.placements.map (·.nodeID)).length < (assignment.slots.map (·.candidate.nodeID)).length := by
    rw [length_map, length_map, assignment.length]
    exact hRoom
  obtain ⟨nodeID, hMem, hLess⟩ := exists_count_lt hFewer
  obtain ⟨slot, hSlot, rfl⟩ := mem_map.mp hMem
  refine ⟨slot.candidate, assignment.candidate slot hSlot, ?_⟩
  -- the devices that the assignment has on this node, against those that were taken there
  have hOwn : ∀ x ∈ assignment.on slot.candidate.nodeID, x ∈ assignment.slots ∧ x.candidate = slot.candidate := by
    intro x hx
    obtain ⟨hx, hNode⟩ := mem_filter.mp hx
    exact ⟨hx, candidate_eq hIDs (assignment.candidate x hx) (assignment.candidate slot hSlot) (by simpa using hNode)⟩
  have hMany : (assignment.on slot.candidate.nodeID).length * d.count ≤
      ((assignment.on slot.candidate.nodeID).flatMap (·.devices)).length := by
    refine length_le_flatMap fun x hx => ?_
    have hServes := assignment.serves hCount x (hOwn x hx).1
    simpa [Slot.Serves, hAll, hIndices] using hServes
  have hFree : ∀ u ∈ (assignment.on slot.candidate.nodeID).flatMap (·.devices), ∃ a ∈ slot.candidate.free, a.uuid = u := by
    intro u hu
    obtain ⟨x, hx, hDevice⟩ := mem_flatMap.mp hu
    obtain ⟨hMem, hSame⟩ := hOwn x hx
    exact hSame ▸ assignment.free x hMem u hDevice
  have hFits := length_le_freeAfter (s := st.pool) (assignment.nodup_on slot.candidate.nodeID) hFree
  have hTaken := hFrugal slot.candidate.nodeID
  have hLen := assignment.length_on slot.candidate.nodeID
  have hMul : ((st.placements.map (·.nodeID)).count slot.candidate.nodeID + 1) * d.count ≤
      (assignment.on slot.candidate.nodeID).length * d.count := Nat.mul_le_mul_right _ (by omega)
  rw [Nat.succ_mul] at hMul
  omega

theorem Frugal.add {pool : Pool} (h : Frugal d st)
    (hTakes : Takes d st.pool c rank placement pool) (hLen : placement.accelerators.length ≤ d.count) :
    Frugal d ⟨pool, st.placements ++ [placement], st.diagnostics⟩ := by
  intro nodeID
  have hOld := h nodeID
  rw [takenOn_takes hTakes, map_append, count_append, map_singleton, count_singleton, hTakes.node, Nat.add_mul]
  by_cases hNode : c.nodeID = nodeID
  · simp only [hNode, if_true, beq_self_eq_true]
    omega
  · simp only [hNode, if_false]
    omega

theorem complete_count (hIDs : (cs.map (·.nodeID)).Nodup) (hCount : 0 < d.count) (hMust : d.required = true)
    (hAll : d.devAll = false) (hIndices : d.devIndices = []) (assignment : Assignment d cs ranks.length) :
    (placeAutomatic d cs ranks).placements.length = ranks.length := by
  refine placeAutomatic_length (I := Frugal d) (fun nodeID => ?_) (fun st hFrugal hRoom => ?_)
    (fun st rank best hFrugal _ hBest => ?_) le_rfl
  · simp [Placing.start, takenOn]
  · obtain ⟨c, hMem, hEnough⟩ := hFrugal.room hIDs hMust hAll hIndices assignment hRoom
    exact ⟨c, hMem, by simp [eligible, hAll, hEnough]⟩
  have hEnough : ¬(st.pool.freeAfter best).length < d.count := by simpa [eligible, hMust, hAll] using hBest
  have hAlloc : ∃ out, st.pool.allocOne d best rank = .ok out ∧ out.1.accelerators.length ≤ d.count := by
    simp [allocOne, pick, hMust, hAll, hIndices, hEnough]
  obtain ⟨⟨placement, pool⟩, hAlloc, hLen⟩ := hAlloc
  exact ⟨placement, pool, hAlloc, hFrugal.add (allocOne_ok hCount hAlloc) hLen⟩

structure WholeNodes (st : Placing) : Prop where
  used : st.pool.usedAll.length = st.placements.length
  taken : ∀ entry ∈ st.pool.taken, entry.1 ∈ st.pool.usedAll

theorem Assignment.nodup_nodes (hMust : d.required = true) (hAll : d.devAll = true)
    (hSome : ∀ c ∈ cs, c.free ≠ []) (hIDs : (cs.map (·.nodeID)).Nodup) (assignment : Assignment d cs n) :
    (assignment.slots.map (·.candidate.nodeID)).Nodup := by
  rw [List.Nodup, pairwise_map]
  refine assignment.apart.imp_of_mem ?_
  intro x y hx hy hApart hSame
  have hCand := candidate_eq hIDs (assignment.candidate x hx) (assignment.candidate y hy) hSame
  obtain ⟨a, ha⟩ := exists_mem_of_ne_nil _ (hSome x.candidate (assignment.candidate x hx))
  have hServes : ∀ slot ∈ assignment.slots, ∀ a ∈ slot.candidate.free, a.uuid ∈ slot.devices := fun slot hSlot => by
    simpa [Slot.Serves, hAll] using assignment.serves hMust slot hSlot
  exact hApart hSame a.uuid (hServes x hx a ha) (hServes y hy a (hCand ▸ ha))

theorem complete_all (hIDs : (cs.map (·.nodeID)).Nodup) (hCount : 0 < d.count) (hMust : d.required = true)
    (hAll : d.devAll = true) (hSome : ∀ c ∈ cs, c.free ≠ []) (assignment : Assignment d cs ranks.length) :
    (placeAutomatic d cs ranks).placements.length = ranks.length := by
  refine placeAutomatic_length (I := WholeNodes) ⟨rfl, by simp [Placing.start]⟩ (fun st hWhole hRoom => ?_)
    (fun st rank best hWhole hMem hBest => ?_) le_rfl
  · by_contra hNone
    push Not at hNone
    have hUsed : ∀ nodeID ∈ assignment.slots.map (·.candidate.nodeID), nodeID ∈ st.pool.usedAll := by
      intro nodeID hMem
      obtain ⟨slot, hSlot, rfl⟩ := mem_map.mp hMem
      simpa [eligible, hMust, hAll] using hNone slot.candidate (assignment.candidate slot hSlot)
    have hLen := (subperm_of_subset (assignment.nodup_nodes hMust hAll hSome hIDs) hUsed).length_le
    rw [length_map, assignment.length, hWhole.used] at hLen
    omega
  have hFresh : best.nodeID ∉ st.pool.usedAll := by simpa [eligible, hMust, hAll] using hBest
  have hFree : st.pool.freeAfter best ≠ [] := by
    obtain ⟨a, ha⟩ := exists_mem_of_ne_nil _ (hSome best hMem)
    exact ne_nil_of_mem (mem_freeAfter.mpr ⟨ha, fun hTaken => hFresh (hWhole.taken _ hTaken)⟩)
  have hAlloc : ∃ out, st.pool.allocOne d best rank = .ok out ∧ out.2.usedAll = best.nodeID :: st.pool.usedAll := by
    simp [allocOne, pick, hMust, hAll, hFresh, hFree]
  obtain ⟨⟨placement, pool⟩, hAlloc, hUsed⟩ := hAlloc
  refine ⟨placement, pool, hAlloc, ?_, ?_⟩
  · rw [hUsed, length_cons, hWhole.used, length_append, length_singleton]
  intro entry hEntry
  rw [(allocOne_ok hCount hAlloc).taken] at hEntry
  rw [hUsed]
  rcases mem_append.mp hEntry with hNew | hOld
  · obtain ⟨u, _, rfl⟩ := mem_map.mp hNew
    exact mem_cons_self
  · exact mem_cons_of_mem _ (hWhole.taken entry hOld)

def Blocked (d : Demand) (sorted : List Candidate) (s : Pool) : Prop :=
  sorted.find? (eligible d s) = none ∨
    ∃ best, sorted.find? (eligible d s) = some best ∧ ∀ rank, ∃ message, s.allocOne d best rank = .error message

theorem Blocked.placeRank (h : Blocked d sorted st.pool) (rank : Int) :
    ∃ code message, placeRank d sorted st rank = st.note code message := by
  rcases h with hNone | ⟨best, hFind, hAlloc⟩
  · exact ⟨_, _, by rw [Plan.placeRank, hNone]⟩
  obtain ⟨message, hError⟩ := hAlloc rank
  refine ⟨"placement.accelerator_unavailable", s!"no node can host rank {rank}: {message}", ?_⟩
  rw [Plan.placeRank, hFind]
  dsimp only
  rw [hError]

theorem Blocked.run (h : Blocked d sorted st.pool) :
    (ranks.foldl (Plan.placeRank d sorted) st).placements = st.placements := by
  induction ranks generalizing st with
  | nil => rfl
  | cons rank rest ih =>
    obtain ⟨code, message, hNote⟩ := h.placeRank rank
    rw [foldl_cons, hNote]
    exact ih h

def indexed (d : Demand) (c : Candidate) : List Accelerator := c.free.filter fun a => d.devIndices.contains a.index

def leftover (d : Demand) (c : Candidate) : List Accelerator :=
  c.free.filter fun a => !((indexed d c).map (·.uuid)).contains a.uuid

def Drained (d : Demand) (c : Candidate) : Prop := (leftover d c).length < d.count

def Stage (d : Demand) (done : List Candidate) (s : Pool) : Prop :=
  ∀ x u, (x, u) ∈ s.taken ↔ ∃ c ∈ done, c.nodeID = x ∧ u ∈ (indexed d c).map (·.uuid)

section

variable {done rest : List Candidate} {s : Pool} {c : Candidate}

theorem Stage.freeAfter_done (h : Stage d done s) (hIDs : (done.map (·.nodeID)).Nodup) (hDone : c ∈ done) :
    s.freeAfter c = leftover d c := by
  refine filter_congr fun a _ => ?_
  rw [Bool.eq_iff_iff, decide_eq_true_eq, Bool.not_eq_true', ← Bool.not_eq_true, contains_iff_mem, h c.nodeID a.uuid]
  refine not_congr ⟨?_, fun hOwn => ⟨c, hDone, rfl, hOwn⟩⟩
  rintro ⟨c', hMem, hSame, hOwn⟩
  rwa [candidate_eq hIDs hMem hDone hSame] at hOwn

theorem Stage.freeAfter_fresh (h : Stage d done s) (hFresh : c.nodeID ∉ done.map (·.nodeID)) :
    s.freeAfter c = c.free := by
  refine filter_eq_self.mpr fun a _ => ?_
  rw [decide_eq_true_eq, h c.nodeID a.uuid]
  rintro ⟨c', hMem, hSame, _⟩
  exact hFresh (mem_map.mpr ⟨c', hMem, hSame⟩)

structure ByIndex (d : Demand) (cs : List Candidate) : Prop where
  required : d.required = true
  all : d.devAll = false
  indices : d.devIndices ≠ []
  count : ∀ c ∈ cs, d.count ≤ c.free.length
  device : ∀ c ∈ cs, ∀ index ∈ d.devIndices, ∃ a ∈ c.free, a.index = index

theorem ByIndex.eligible_iff (h : ByIndex d cs) : eligible d s c = true ↔ d.count ≤ (s.freeAfter c).length := by
  simp [eligible, h.required, h.all]

theorem pickIndices_succeeds {indices : List Int} (h : ∀ index ∈ indices, s.atIndex c index ≠ []) :
    ∃ devices, s.pickIndices c indices = .ok devices := by
  induction indices with
  | nil => exact ⟨[], rfl⟩
  | cons index more ih =>
    obtain ⟨hFirst, hMore⟩ := forall_mem_cons.mp h
    obtain ⟨devices, hDevs⟩ := ih hMore
    refine ⟨s.atIndex c index ++ devices, ?_⟩
    rw [pickIndices, if_neg hFirst, hDevs]

theorem Stage.alloc (h : Stage d done s) (hIdx : ByIndex d cs) (hMem : c ∈ cs)
    (hFresh : c.nodeID ∉ done.map (·.nodeID)) (rank : Int) :
    ∃ placement pool, s.allocOne d c rank = .ok (placement, pool) ∧ Stage d (done ++ [c]) pool := by
  have hAt : ∀ index, s.atIndex c index = c.free.filter fun a => a.index = index := fun index => by
    rw [atIndex, h.freeAfter_fresh hFresh]
  have hSome : ∀ index ∈ d.devIndices, s.atIndex c index ≠ [] := by
    intro index hAsked
    obtain ⟨a, ha, hOwn⟩ := hIdx.device c hMem index hAsked
    rw [hAt]
    exact ne_nil_of_mem (mem_filter.mpr ⟨ha, by simpa using hOwn⟩)
  obtain ⟨devices, hDevs⟩ := pickIndices_succeeds hSome
  obtain ⟨hAll, _⟩ := pickIndices_ok hDevs
  have hPick : s.pick d c = .ok devices := by simp [pick, hIdx.all, hIdx.indices, hDevs]
  have hSame : ∀ a, a ∈ devices ↔ a ∈ indexed d c := by
    intro a
    rw [hAll, mem_flatMap, indexed]
    simp only [hAt, mem_filter, decide_eq_true_eq, contains_iff_mem]
    constructor
    · rintro ⟨index, hAsked, ha, rfl⟩
      exact ⟨ha, hAsked⟩
    · rintro ⟨ha, hAsked⟩
      exact ⟨a.index, hAsked, ha, rfl⟩
  refine ⟨_, _, by rw [allocOne, if_pos hIdx.required, hPick], fun x u => ?_⟩
  simp only [mem_append, h x u, mem_map, Prod.mk.injEq, hSame, mem_singleton]
  constructor
  · rintro (⟨a, ha, rfl, rfl⟩ | ⟨c', hDone, hOld⟩)
    · exact ⟨c, .inr rfl, rfl, a, ha, rfl⟩
    · exact ⟨c', .inl hDone, hOld⟩
  rintro ⟨c', hDone | rfl, hNode, hOwn⟩
  · exact .inr ⟨c', hDone, hNode, hOwn⟩
  · obtain ⟨a, ha, rfl⟩ := hOwn
    exact .inl ⟨a, ha, hNode, rfl⟩

theorem Stage.refuse (h : Stage d done s) (hIdx : ByIndex d cs) (hDone : c ∈ done) (rank : Int) :
    ∃ message, s.allocOne d c rank = .error message := by
  obtain ⟨index, hAsked⟩ := exists_mem_of_ne_nil _ hIdx.indices
  have hGone : s.atIndex c index = [] := by
    rw [atIndex, filter_eq_nil_iff]
    intro a ha hAt
    obtain ⟨hFree, hNot⟩ := mem_freeAfter.mp ha
    refine hNot ((h _ _).mpr ⟨c, hDone, rfl, mem_map.mpr ⟨a, mem_filter.mpr ⟨hFree, ?_⟩, rfl⟩⟩)
    rw [decide_eq_true_eq.mp hAt, contains_iff_mem]
    exact hAsked
  have hPick : ∃ message, s.pick d c = .error message := by
    cases hPick : s.pick d c with
    | error message => exact ⟨message, rfl⟩
    | ok devices =>
      rw [pick, if_neg (by simp [hIdx.all]), if_pos hIdx.indices] at hPick
      exact absurd hGone ((pickIndices_ok hPick).2 index hAsked)
  obtain ⟨message, hPick⟩ := hPick
  exact ⟨message, by rw [allocOne, if_pos hIdx.required, hPick]⟩

end

theorem Stage.pass_drained {done passed : List Candidate} {s : Pool} (h : Stage d done s) (hIdx : ByIndex d cs)
    (hIDs : (done.map (·.nodeID)).Nodup) (hPassed : ∀ c ∈ passed, c ∈ done) (hDrained : ∀ c ∈ passed, Drained d c) :
    passed.find? (eligible d s) = none := by
  rw [find?_eq_none]
  intro c hc
  rw [hIdx.eligible_iff, h.freeAfter_done hIDs (hPassed c hc), not_le]
  exact hDrained c hc

theorem run_byIndex {rest : List Candidate} : ∀ {ranks : List Int} {done : List Candidate} {st : Placing},
    ByIndex d (done ++ rest) → ((done ++ rest).map (·.nodeID)).Nodup → Stage d done st.pool →
    (∀ c ∈ done, Drained d c) →
    ((ranks.foldl (placeRank d (done ++ rest)) st).placements.length = st.placements.length + ranks.length ↔
      ranks.length ≤ rest.length ∧ ∀ c ∈ rest.take (ranks.length - 1), Drained d c) := by
  induction rest with
  | nil =>
    intro ranks done st hIdx hIDs hStage hDone
    cases ranks with
    | nil => simp
    | cons rank more =>
      have hNodup : (done.map (·.nodeID)).Nodup := by simpa using hIDs
      have hBlocked : Blocked d (done ++ []) st.pool := by
        rw [append_nil]
        exact .inl (hStage.pass_drained hIdx hNodup (fun _ h => h) hDone)
      rw [hBlocked.run]
      simp
  | cons c rest ih =>
    intro ranks done st hIdx hIDs hStage hDone
    cases ranks with
    | nil => simp
    | cons rank more =>
      have hSplit : done ++ c :: rest = (done ++ [c]) ++ rest := append_cons done c rest
      obtain ⟨hNodup, -, hApart⟩ := nodup_append.mp (map_append ▸ hIDs)
      have hFresh : c.nodeID ∉ done.map (·.nodeID) := fun hMem => hApart _ hMem _ mem_cons_self rfl
      have hMem : c ∈ done ++ c :: rest := mem_append_right _ mem_cons_self
      have hFind : (done ++ c :: rest).find? (eligible d st.pool) = some c := by
        rw [find?_append, hStage.pass_drained hIdx hNodup (fun _ h => h) hDone]
        apply find?_cons_of_pos
        rw [hIdx.eligible_iff, hStage.freeAfter_fresh hFresh]
        exact hIdx.count c hMem
      obtain ⟨placement, pool, hAlloc, hNext⟩ := hStage.alloc hIdx hMem hFresh rank
      rw [foldl_cons, placeRank_placed hFind hAlloc]
      by_cases hDrained : Drained d c
      · -- the node is left behind, and the next rank starts from the candidates after it
        rw [hSplit] at hIdx hIDs ⊢
        have hAllDone : ∀ x ∈ done ++ [c], Drained d x := by
          simpa [or_imp, forall_and] using ⟨hDone, hDrained⟩
        have hRest := @ih more (done ++ [c]) ⟨pool, st.placements ++ [placement], st.diagnostics⟩ hIdx hIDs hNext hAllDone
        rw [length_append, length_singleton, Nat.add_right_comm] at hRest
        refine hRest.trans ?_
        cases more with
        | nil => simp
        | cons next more => simp [hDrained]
      cases more with
      | nil => simp
      | cons next more =>
        -- the next rank comes back to the node, and every later one with it
        have hAgain : (done ++ c :: rest).find? (eligible d pool) = some c := by
          have hIDs' : ((done ++ [c]).map (·.nodeID)).Nodup := by
            rw [hSplit, map_append] at hIDs
            exact (nodup_append.mp hIDs).1
          have hEligible : eligible d pool c = true := by
            rw [hIdx.eligible_iff, hNext.freeAfter_done hIDs' (mem_append_right _ mem_cons_self)]
            exact not_lt.mp hDrained
          rw [find?_append, hNext.pass_drained hIdx hIDs' (fun _ => mem_append_left _) hDone]
          exact find?_cons_of_pos hEligible
        have hBlocked : Blocked d (done ++ c :: rest) pool :=
          .inr ⟨c, hAgain, hNext.refuse hIdx (mem_append_right _ mem_cons_self)⟩
        rw [hBlocked.run]
        simp [hDrained]

variable {held : List Lease.Row}

/-- The indexed ranks fit: there are candidates enough, and all but the last one that is used are drained. -/
def IndexedFit (d : Demand) (cs : List Candidate) (n : Nat) : Prop :=
  n ≤ cs.length ∧ ∀ c ∈ (sortCandidates cs).take (n - 1), Drained d c

theorem complete_indexed (hIDs : (cs.map (·.nodeID)).Nodup) (hIdx : ByIndex d cs) :
    (placeAutomatic d cs ranks).placements.length = ranks.length ↔ IndexedFit d cs ranks.length := by
  have hPerm : (sortCandidates cs).Perm cs := perm_insertionSort _ _
  have hSort : ByIndex d ([] ++ sortCandidates cs) :=
    { hIdx with
      count := fun c hc => hIdx.count c (hPerm.mem_iff.mp hc)
      device := fun c hc => hIdx.device c (hPerm.mem_iff.mp hc) }
  have hNodup : (([] ++ sortCandidates cs).map Candidate.nodeID).Nodup := (hPerm.map _).nodup_iff.mpr hIDs
  have hRun := @run_byIndex d _ ranks [] .start hSort hNodup (by simp [Stage, Placing.start])
    fun c hc => absurd hc not_mem_nil
  rwa [hPerm.length_eq, show Placing.start.placements.length = 0 from rfl, Nat.zero_add] at hRun

theorem candidates_enough {nodes : List Node}
    (hMust : (accelRequirement m).required = true) (hMem : c ∈ candidates m w held nodes) :
    (if devAll w then 1 else (accelRequirement m).count) ≤ c.free.length ∧
    ∀ index ∈ devIndices w, ∃ a ∈ c.free, a.index = index := by
  obtain ⟨_, _, _, _, _, _, hEnough⟩ := mem_candidates hMem
  simpa [enough] using hEnough hMust

theorem Selection.complete_iff {s : Selection} (hAutomatic : s.overrides = [])
    (assignment : Assignment (demand s.m s.w) s.candidates s.ranks.length) :
    s.placements.length = s.ranks.length ↔
      ((accelRequirement s.m).required = true → devAll s.w = false → devIndices s.w ≠ [] →
        IndexedFit (demand s.m s.w) s.candidates s.ranks.length) := by
  have hIDs : (s.candidates.map (·.nodeID)).Nodup := candidates_nodup _ _ _ s.world.distinct
  have hCount : 0 < (demand s.m s.w).count := accelRequirement_count s.m
  have hPlacing : s.placements.length = (placeAutomatic (demand s.m s.w) s.candidates s.ranks).placements.length := by
    rw [placements_perm.length_eq, Selection.placing, place, if_neg (not_not.mpr hAutomatic)]
  rw [hPlacing]
  cases hMust : (accelRequirement s.m).required with
  | false => exact iff_of_true (complete_none hMust assignment) nofun
  | true =>
    cases hAll : devAll s.w with
    | true =>
      refine iff_of_true (complete_all hIDs hCount hMust hAll (fun c hc => ?_) assignment) (fun _ h => nomatch h)
      have hSome := (candidates_enough hMust hc).1
      rw [hAll] at hSome
      exact ne_nil_of_length_pos hSome
    | false =>
      by_cases hIndices : devIndices s.w = []
      · exact iff_of_true (complete_count hIDs hCount hMust hAll hIndices assignment)
          (fun _ _ h => absurd hIndices h)
      have hIdx : ByIndex (demand s.m s.w) s.candidates :=
        ⟨hMust, hAll, hIndices, fun c hc => by simpa [demand, hAll] using (candidates_enough hMust hc).1,
          fun c hc => (candidates_enough hMust hc).2⟩
      rw [complete_indexed hIDs hIdx]
      exact ⟨fun h _ _ _ => h, fun h => h rfl rfl hIndices⟩

variable {variants : Recipe.Dict Text} {values : Recipe.Settings} {ignored : List String}

theorem plan_placements {world : World} {name : Text} {req : Request} {p : DeploymentPlan} {index : Nat}
    (hPlan : plan world name m req ignored = .ok p) (hSettings : world.settings = .settings variants values)
    (hChosen : chooseWorkload m world.nodes req.workloadIndex req.placements = .ok (index, w)) :
    p.placements = (selectionOf world m req ignored index w).placements := by
  unfold plan at hPlan
  simp only [bind, Except.bind, hSettings, hChosen] at hPlan
  split at hPlan
  · cases hPlan
  split at hPlan
  · cases hPlan
  · cases hPlan
    rfl

/-- If some assignment of free devices to the ranks exists, an automatic plan places all ranks, exactly when ranks
with device indices fit in the order of the candidates. -/
theorem automatic_plan_complete_iff {world : World} {name : Text} {m : Manifest} {req : Request} {ignored : List String}
    {p : DeploymentPlan} {index : Nat} {w : Workload} {variants : Recipe.Dict Text} {values : Recipe.Settings}
    (hPlan : plan world name m req ignored = .ok p) (hSettings : world.settings = .settings variants values)
    (hChosen : chooseWorkload m world.nodes req.workloadIndex req.placements = .ok (index, w))
    (hAutomatic : req.placements = [])
    (assignment : Assignment (demand m w) (candidates m w (leased world.leases ignored) world.nodes)
      (rankList m w).length) :
    (p.placements.map (·.rank)).Perm (rankList m w) ↔
      ((accelRequirement m).required = true → devAll w = false → devIndices w ≠ [] →
        IndexedFit (demand m w) (candidates m w (leased world.leases ignored) world.nodes) (rankList m w).length) := by
  have hFull : (selectionOf world m req ignored index w).placements.length = (rankList m w).length ↔ _ :=
    Selection.complete_iff hAutomatic assignment
  rw [plan_placements hPlan hSettings hChosen]
  refine Iff.trans ⟨fun hPerm => ?_, fun hAll => ?_⟩ hFull
  · rw [← hPerm.length_eq, length_map]
  · exact Selection.placements_ranks hAll

section

variable (accelerators : List Accelerator)

def secondNode : Node :=
  ⟨⟨"n2".toList, by decide, by decide⟩, "n2".toList, true, some ⟨accelerators, "10.0.0.2".toList, []⟩⟩

def twoNodeWorld : World :=
  { sampleWorld [] [] [] with
    nodes := [sampleNode accelerators, secondNode accelerators]
    distinct := (by decide : ["n1".toList, "n2".toList].Nodup) }

def indexedWorkload : Workload :=
  { sampleWorkload [] 0 with
    ranks := [0, 1]
    devices := some ⟨some ⟨false, [0]⟩, none⟩ }

def automaticRequest : Request := ⟨"sha256:2".toList, "", none, []⟩

def indexedCandidates : List Candidate :=
  candidates (oneEach indexedWorkload) indexedWorkload [] (twoNodeWorld accelerators).nodes

def indexedSlots : List Slot :=
  (indexedCandidates accelerators).map fun c => ⟨c, ["g0".toList]⟩

end

theorem serves_indexed {slot : Slot} (hDevs : slot.devices = ["g0".toList])
    (hFree : sampleDevice 0 "g0".toList ∈ slot.candidate.free) :
    slot.Serves (demand (oneEach indexedWorkload) indexedWorkload) := by
  intro index hIdx
  rw [mem_singleton.mp hIdx, hDevs]
  exact ⟨_, hFree, rfl, mem_singleton.mpr rfl⟩

def indexedAssignment (accelerators : List Accelerator) (hLen : (indexedSlots accelerators).length = 2)
    (hFree : ∀ slot ∈ indexedSlots accelerators, sampleDevice 0 "g0".toList ∈ slot.candidate.free)
    (hNodes : (indexedSlots accelerators).Pairwise fun x y => x.candidate.nodeID ≠ y.candidate.nodeID) :
    Assignment (demand (oneEach indexedWorkload) indexedWorkload) (indexedCandidates accelerators)
      (rankList (oneEach indexedWorkload) indexedWorkload).length := by
  have hSlot : ∀ slot ∈ indexedSlots accelerators, slot.candidate ∈ indexedCandidates accelerators ∧
      slot.devices = ["g0".toList] := by
    intro slot hSlot
    obtain ⟨c, hc, rfl⟩ := mem_map.mp hSlot
    exact ⟨hc, rfl⟩
  refine ⟨indexedSlots accelerators, hLen, fun slot h => (hSlot slot h).1, fun slot h u hu => ?_, fun slot h => ?_,
    fun _ slot h => serves_indexed (hSlot slot h).2 (hFree slot h), hNodes.imp fun hNot hSame => absurd hSame hNot⟩
  · rw [(hSlot slot h).2, mem_singleton] at hu
    exact ⟨_, hFree slot h, hu.symm⟩
  · rw [(hSlot slot h).2]
    exact nodup_singleton _

theorem automatic_plan_complete_one_device : ∃ p,
    plan (twoNodeWorld [sampleDevice 0 "g0".toList]) [] (oneEach indexedWorkload) automaticRequest [] = .ok p ∧
      (p.placements.map (·.rank)).Perm [0, 1] := by
  have hRun : ((plan (twoNodeWorld [sampleDevice 0 "g0".toList]) [] (oneEach indexedWorkload) automaticRequest []).map
      (·.ready)) = .ok true := by decide +kernel
  obtain ⟨p, hPlan, _⟩ := except_map_eq_ok hRun
  refine ⟨p, hPlan, (automatic_plan_complete_iff hPlan rfl (by decide +kernel : _ = Except.ok (0, indexedWorkload)) rfl
    (indexedAssignment [sampleDevice 0 "g0".toList] ?_ ?_ ?_)).mpr fun _ _ _ => ⟨?_, ?_⟩⟩
  · decide +kernel
  · decide +kernel
  · decide +kernel
  · decide +kernel
  · unfold Drained
    decide +kernel

theorem automatic_plan_incomplete : ∃ p,
    plan (twoNodeWorld twoDevices) [] (oneEach indexedWorkload) automaticRequest [] = .ok p ∧
      p.placements.map (·.rank) = [0] ∧ rankList (oneEach indexedWorkload) indexedWorkload = [0, 1] ∧
      Nonempty (Assignment (demand (oneEach indexedWorkload) indexedWorkload) (indexedCandidates twoDevices) 2) := by
  have hRun : ((plan (twoNodeWorld twoDevices) [] (oneEach indexedWorkload) automaticRequest []).map
      fun p => p.placements.map (·.rank)) = .ok [0] := by decide +kernel
  obtain ⟨p, hPlan, hRanks⟩ := except_map_eq_ok hRun
  refine ⟨p, hPlan, hRanks, by decide, ⟨indexedAssignment twoDevices ?_ ?_ ?_⟩⟩
  · decide +kernel
  · decide +kernel
  · decide +kernel

end LocalModelWorks.Plan
