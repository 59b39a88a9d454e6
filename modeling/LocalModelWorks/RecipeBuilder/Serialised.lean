import Mathlib.Data.List.Count
import LocalModelWorks.RecipeBuilder.Service

/-!
# Reservations and edits of a draft take turns

The history of a draft is read by an automaton that knows the operation owning the row.
-/

namespace LocalModelWorks.RecipeBuilder

open List Option Event

variable {μ δ : Type}

namespace Event

def step (owner : Option Nat) : Event μ δ → Option (Option Nat)
  | .reserved op _ _ => if owner = none then some (some op.id) else none
  | .edited _ _ => if owner = none then some none else none
  | .deleted _ _ => if owner = none then some none else none
  | .finished id => if owner = some id then some none else none
  | .imported _ _ _ _ => some owner

def changesDraft : Event μ δ → Bool
  | .edited _ _ => true
  | .deleted _ _ => true
  | _ => false

def finishes (id : Nat) : Event μ δ → Bool
  | .finished opID => opID == id
  | _ => false

def reservedID : Event μ δ → Option Nat
  | .reserved op _ _ => some op.id
  | _ => none

def Examined : Event μ δ → Prop
  | .reserved op examined replaced =>
    examined = replaced ∧ reservable replaced op.kind = .ok () ∧ op.previousState = replaced.state
  | .edited examined replaced => examined = replaced
  | _ => True

end Event

variable (owner : Option Nat) (history : List (Event μ δ))

def ownerFrom : Option (Option Nat) :=
  history.foldlM step owner

def reservedIDs : List Nat := history.filterMap reservedID

variable (e : Event μ δ)

theorem ownerFrom_cons (history : List (Event μ δ)) :
    ownerFrom owner (e :: history) = (e.step owner).bind fun next => ownerFrom next history := rfl

variable (first second : List (Event μ δ))

theorem ownerFrom_append :
    ownerFrom owner (first ++ second) = (ownerFrom owner first).bind fun next => ownerFrom next second :=
  foldlM_append

theorem reservedIDs_cons (history : List (Event μ δ)) :
    reservedIDs (e :: history) = e.reservedID.toList ++ reservedIDs history := by
  cases h : e.reservedID with
  | none => rw [reservedIDs, filterMap_cons_none h]; rfl
  | some id => rw [reservedIDs, filterMap_cons_some h]; rfl

theorem reservedIDs_append : reservedIDs (first ++ second) = reservedIDs first ++ reservedIDs second := filterMap_append

theorem owned_until_finished {id : Nat} {last : Option Nat} {history : List (Event μ δ)}
    (hRun : ownerFrom (some id) history = some last) (hOpen : finished id ∉ history) :
    ∀ e ∈ history, e.changesDraft = false := by
  induction history with
  | nil => exact forall_mem_nil _
  | cons e rest ih =>
    rw [ownerFrom_cons] at hRun
    obtain ⟨hHead, hRest⟩ := not_or.mp (fun h => hOpen (mem_cons.mpr h))
    cases e with
    | reserved | edited | deleted => cases hRun
    | finished other =>
      have hOther : some id ≠ some other := fun hSame => hHead (by rw [Option.some.inj hSame])
      rw [step, if_neg hOther] at hRun
      cases hRun
    | imported op examined current package =>
      exact forall_mem_cons.mpr ⟨rfl, ih hRun hRest⟩

theorem step_count (id : Nat) {owner next : Option Nat} {e : Event μ δ} (h : e.step owner = some next) :
    (if finishes id e then 1 else 0) + (if next = some id then 1 else 0) =
      e.reservedID.toList.count id + (if owner = some id then 1 else 0) := by
  cases e with
  | imported =>
    cases h
    simp [finishes, reservedID]
  | reserved | edited | deleted | finished =>
    rw [step, ite_none_right_eq_some] at h
    obtain ⟨rfl, hNext⟩ := h
    cases hNext
    simp [finishes, reservedID, count_singleton]

theorem count_finishes (id : Nat) {owner last : Option Nat} {history : List (Event μ δ)}
    (hRun : ownerFrom owner history = some last) :
    history.countP (finishes id) + (if last = some id then 1 else 0) =
      (reservedIDs history).count id + (if owner = some id then 1 else 0) := by
  induction history generalizing owner with
  | nil =>
    cases hRun
    simp [reservedIDs]
  | cons e rest ih =>
    rw [ownerFrom_cons, bind_eq_some_iff] at hRun
    obtain ⟨next, hStep, hRest⟩ := hRun
    have hHead := step_count id hStep
    have hTail := ih hRest
    rw [reservedIDs_cons, countP_cons, count_append]
    omega

theorem Row.ownedBy_iff {row : Row μ δ} {opID : Nat} :
    row.ownedBy opID ↔ ∃ op, row.operation = some op ∧ op.id = opID := by
  rw [Row.ownedBy]
  cases row.operation with
  | none | some => simp

namespace Statement

def replaces : Statement μ δ → Bool
  | .edit _ _ _ | .restoreInterrupted _ | .reserve _ _ => true
  | _ => false

def reservation : Statement μ δ → Option Nat
  | .reserve _ op => some op.id
  | _ => none

def Justified (examined : Row μ δ) : Statement μ δ → Prop
  | .reserve version op =>
    version ≤ examined.version ∧ reservable examined op.kind = .ok () ∧ op.previousState = examined.state
  | .edit version _ _ | .restoreInterrupted version => version = examined.version
  | _ => True

variable {examined row new : Row μ δ} {st : Statement μ δ}

theorem version_le_of_matches (hReplaces : st.replaces) (hJustified : st.Justified examined)
    (hMatch : st.matches row) : row.version ≤ examined.version := by
  cases st with
  | edit version read e =>
    simp only [Statement.matches, Bool.and_eq_true, beq_iff_eq] at hMatch
    exact (hMatch.1.trans hJustified).le
  | restoreInterrupted version =>
    simp only [Statement.matches, Bool.and_eq_true, beq_iff_eq] at hMatch
    exact (hMatch.1.1.trans hJustified).le
  | reserve version op =>
    simp only [Statement.matches, Bool.and_eq_true, beq_iff_eq] at hMatch
    exact hMatch.1.trans_le hJustified.1
  | _ => cases hReplaces

theorem apply_later (hMatch : st.matches row) (hApply : st.apply row = some new) :
    row.version < new.version ∨ row.version = new.version ∧ row.operation ≠ none := by
  cases st with
  | delete version => cases hApply
  | report op =>
    cases hApply
    obtain ⟨owner, hOwner, _⟩ := Row.ownedBy_iff.mp hMatch
    exact .inr ⟨rfl, by simp [hOwner]⟩
  | _ =>
    cases hApply
    exact .inl (Int.lt_add_one_iff.mpr le_rfl)

theorem event_owner (hMatch : st.matches row) (hFree : st.replaces → row.operation = none) :
    ownerFrom (row.operation.map (·.id)) (st.event examined row).toList =
      some (((st.apply row).bind (·.operation)).map (·.id)) := by
  cases st with
  | delete version =>
    simp only [Statement.matches, Bool.and_eq_true, isNone_iff_eq_none] at hMatch
    rw [hMatch.2]
    rfl
  | complete opID columns =>
    obtain ⟨op, hOwner, rfl⟩ := Row.ownedBy_iff.mp hMatch
    simp [hOwner, event, apply, ownerFrom, step]
  | completeGeneration version opID state proposal runID =>
    obtain ⟨op, hOwner, rfl⟩ := Row.ownedBy_iff.mp (Bool.and_eq_true_iff.mp hMatch).2
    simp [hOwner, event, apply, ownerFrom, step]
  | report op =>
    obtain ⟨owner, hOwner, hSame⟩ := Row.ownedBy_iff.mp hMatch
    simp [hOwner, event, apply, ownerFrom, hSame]
  | _ => simp [hFree rfl, event, apply, ownerFrom, step]

theorem event_reservedIDs : reservedIDs (st.event examined row).toList = st.reservation.toList := by
  cases st with
  | _ => rfl

theorem event_examined (hSame : st.replaces → row = examined ∧ st.Justified examined) :
    ∀ e ∈ (st.event examined row).toList, e.Examined := by
  cases st with
  | reserve version op =>
    obtain ⟨rfl, hJustified⟩ := hSame rfl
    simp only [event, toList_some, mem_singleton, forall_eq]
    exact ⟨rfl, hJustified.2⟩
  | edit | restoreInterrupted => simp [event, Examined, (hSame rfl).1]
  | _ => simp [event, Examined]

theorem replaces_of_reservation {id : Nat} (h : st.reservation = some id) : st.replaces := by
  cases st with
  | reserve version op => rfl
  | _ => cases h

end Statement

theorem Completes.replaces {codec : Codec μ δ} {row : Row μ δ} {op : Operation} {st : Statement μ δ}
    (h : Completes codec row op st) : st.replaces = false := by
  cases h with
  | _ => rfl

def Row.Behind (examined : Row μ δ) (row : Option (Row μ δ)) : Prop :=
  ∀ current, row = some current → examined.version < current.version ∨ current = examined

structure Waiting (s : World μ δ) (examined : Row μ δ) (st : Statement μ δ) : Prop where
  free : examined.operation = none
  justified : st.Justified examined
  behind : examined.Behind s.row
  drawn : ∀ id, st.reservation = some id → id < s.nextID ∧ id ∉ reservedIDs s.history

structure Serial (s : World μ δ) : Prop where
  owner : ownerFrom none s.history = some ((s.row.bind (·.operation)).map (·.id))
  nodup : (reservedIDs s.history).Nodup
  drawn : ∀ id ∈ reservedIDs s.history, id < s.nextID
  examined : ∀ e ∈ s.history, e.Examined
  waiting : ∀ t x st, s.stage t = some (.writing x st) → st.replaces → Waiting s x st
  apart : ∀ t t' x x' st st' id, s.stage t = some (.writing x st) → s.stage t' = some (.writing x' st') →
    st.reservation = some id → st'.reservation = some id → t = t'

theorem Row.Behind.later {examined row new : Row μ δ} (hBehind : examined.Behind (some row))
    (hFree : examined.operation = none)
    (hLater : row.version < new.version ∨ row.version = new.version ∧ row.operation ≠ none) :
    examined.Behind (some new) := by
  intro current hNow
  cases hNow
  rcases hBehind row rfl with hOld | rfl
  · rcases hLater with hNew | ⟨hSame, _⟩
    · exact .inl (hOld.trans hNew)
    · exact .inl (hSame ▸ hOld)
  rcases hLater with hNew | ⟨_, hOwned⟩
  · exact .inl hNew
  · exact absurd hFree hOwned

variable {s : World μ δ} {t : Nat} {x : Row μ δ}

section

variable (hSerial : Serial s)
include hSerial

theorem Serial.thread {s' : World μ δ} (t₀ : Nat) (new : Option Nat)
    (hNew : ∀ id ∈ new, ∃ x st, s.stage t₀ = some (.writing x st) ∧ st.reservation = some id)
    (hNext : s.nextID ≤ s'.nextID)
    (hOwner : ownerFrom none s'.history = some ((s'.row.bind (·.operation)).map (·.id)))
    (hIDs : reservedIDs s'.history = reservedIDs s.history ++ new.toList) (hExamined : ∀ e ∈ s'.history, e.Examined)
    (hBehind : ∀ x : Row μ δ, x.operation = none → x.Behind s.row → x.Behind s'.row)
    (hOthers : ∀ t, t ≠ t₀ → s'.stage t = s.stage t)
    (hSelf : ∀ x st, s'.stage t₀ = some (.writing x st) → st.replaces → x.operation = none ∧ st.Justified x ∧ x.Behind s'.row ∧ ∀ id, st.reservation = some id → s.nextID ≤ id ∧ id < s'.nextID) :
    Serial s' := by
  have hFresh : ∀ id ∈ new, id < s.nextID ∧ id ∉ reservedIDs s.history := by
    intro id hMem
    obtain ⟨x, st, hStage, hID⟩ := hNew id hMem
    exact (hSerial.waiting t₀ x st hStage (Statement.replaces_of_reservation hID)).drawn id hID
  have hMem : ∀ id, id ∈ reservedIDs s'.history ↔ id ∈ reservedIDs s.history ∨ id ∈ new := by
    intro id
    rw [hIDs, mem_append, mem_toList, mem_def]
  have hUsed : ∀ id ∈ reservedIDs s'.history, id < s.nextID := by
    intro id hID
    rcases (hMem id).mp hID with hOld | hLast
    · exact hSerial.drawn id hOld
    · exact (hFresh id hLast).1
  have hOld : ∀ t x st, t ≠ t₀ → s'.stage t = some (.writing x st) → st.replaces → Waiting s x st :=
    fun t x st hNe hStage => hSerial.waiting t x st (hOthers t hNe ▸ hStage)
  refine ⟨hOwner, ?_, fun id hID => (hUsed id hID).trans_le hNext, hExamined, ?_, ?_⟩
  · rw [hIDs]
    refine hSerial.nodup.append (by cases new <;> simp) ?_
    intro id hFirst hLast
    exact (hFresh id (mem_toList.mp hLast)).2 hFirst
  · intro t x st hStage hReplaces
    by_cases hSame : t = t₀
    · subst hSame
      obtain ⟨hFree, hJustified, hLater, hDrawn⟩ := hSelf x st hStage hReplaces
      refine ⟨hFree, hJustified, hLater, fun id hID => ⟨(hDrawn id hID).2, fun hIn => ?_⟩⟩
      exact absurd (hUsed id hIn) (not_lt.mpr (hDrawn id hID).1)
    obtain ⟨hFree, hJustified, hLater, hDrawn⟩ := hOld t x st hSame hStage hReplaces
    refine ⟨hFree, hJustified, hBehind x hFree hLater, fun id hID => ⟨(hDrawn id hID).1.trans_le hNext, fun hIn => ?_⟩⟩
    rcases (hMem id).mp hIn with hFirst | hLast
    · exact (hDrawn id hID).2 hFirst
    · obtain ⟨y, st', hOther, hID'⟩ := hNew id hLast
      exact hSame (hSerial.apart t t₀ x y st st' id (hOthers t hSame ▸ hStage) hOther hID hID')
  intro t t' x x' st st' id hStage hStage' hID hID'
  have hClash : ∀ {u v : Nat} {y z : Row μ δ} {a b : Statement μ δ}, u = t₀ → v ≠ t₀ →
      s'.stage u = some (.writing y a) → s'.stage v = some (.writing z b) → a.reservation = some id →
      b.reservation = some id → False := by
    rintro u v y z a b rfl hNe hY hZ hA hB
    have hLow := ((hOld v z b hNe hZ (Statement.replaces_of_reservation hB)).drawn id hB).1
    exact absurd hLow (not_lt.mpr ((hSelf y a hY (Statement.replaces_of_reservation hA)).2.2.2 id hA).1)
  by_cases hSame : t = t₀
  · by_cases hSame' : t' = t₀
    · rw [hSame, hSame']
    · exact (hClash hSame hSame' hStage hStage' hID hID').elim
  by_cases hSame' : t' = t₀
  · exact (hClash hSame' hSame hStage' hStage hID' hID).elim
  · exact hSerial.apart t t' x x' st st' id (hOthers t hSame ▸ hStage) (hOthers t' hSame' ▸ hStage') hID hID'

theorem Serial.moves {s' : World μ δ} (t : Nat) (stage : Option (Stage μ δ)) (imports : List (Event μ δ))
    (hRow : s'.row = s.row) (hNext : s'.nextID = s.nextID) (hStages : s'.stage = (s.setStage t stage).stage)
    (hHist : s'.history = s.history ++ imports)
    (hImports : ∀ e ∈ imports, ∃ op x current package, e = .imported op x current package)
    (hStage : ∀ x st, stage = some (.writing x st) → st.replaces = false) : Serial s' := by
  have hOwner : ∀ owner, ownerFrom owner imports = some owner ∧ reservedIDs imports = [] := by
    clear hHist
    induction imports with
    | nil => exact fun owner => ⟨rfl, rfl⟩
    | cons e rest ih =>
      obtain ⟨⟨op, x, current, package, rfl⟩, hRest⟩ := forall_mem_cons.mp hImports
      exact fun owner => ih hRest owner
  refine hSerial.thread t none (by simp) hNext.ge ?_ ?_ ?_ ?_ ?_ ?_
  · rw [hHist, ownerFrom_append, hSerial.owner, hRow]
    exact (hOwner _).1
  · rw [hHist, reservedIDs_append, (hOwner none).2]
    rfl
  · rw [hHist]
    intro e hMem
    rcases mem_append.mp hMem with hOld | hNew
    · exact hSerial.examined e hOld
    · obtain ⟨op, x, current, package, rfl⟩ := hImports e hNew
      trivial
  · intro x _ hBehind
    exact hRow ▸ hBehind
  · intro t' hNe
    rw [hStages, s.setStage_other hNe]
  intro x st hWriting hReplaces
  rw [hStages, s.setStage_self] at hWriting
  rw [hStage x st hWriting] at hReplaces
  cases hReplaces

theorem Serial.setStage (t : Nat) (stage : Option (Stage μ δ))
    (hStage : ∀ x st, stage = some (.writing x st) → st.replaces = false) : Serial (s.setStage t stage) :=
  hSerial.moves t stage [] rfl rfl rfl (append_nil _).symm (forall_mem_nil _) hStage

theorem Serial.replaced {row : Row μ δ} {st : Statement μ δ} (hStage : s.stage t = some (.writing x st))
    (hRow : s.row = some row) (hMatch : st.matches row) :
    st.replaces → row = x ∧ Waiting s x st := by
  intro hReplaces
  have hWait := hSerial.waiting t x st hStage hReplaces
  refine ⟨(hWait.behind row hRow).resolve_left fun hLater => ?_, hWait⟩
  exact absurd (Statement.version_le_of_matches hReplaces hWait.justified hMatch) (not_le.mpr hLater)

theorem Serial.write {st : Statement μ δ} (hStage : s.stage t = some (.writing x st)) : Serial (s.write t x st) := by
  rw [World.write]
  split
  · exact hSerial.setStage t none (by simp)
  rename_i row hRow
  split
  next hMatch =>
    have hSame := hSerial.replaced hStage hRow hMatch
    have hFree : st.replaces → row.operation = none := fun hReplaces => (hSame hReplaces).1 ▸ (hSame hReplaces).2.free
    refine hSerial.thread t st.reservation (fun id hID => ⟨x, st, hStage, hID⟩) le_rfl ?_ ?_ ?_ ?_ ?_ ?_
    · rw [ownerFrom_append, hSerial.owner, hRow]
      exact Statement.event_owner hMatch hFree
    · rw [reservedIDs_append, Statement.event_reservedIDs]
    · intro e hMem
      rcases mem_append.mp hMem with hOld | hNew
      · exact hSerial.examined e hOld
      · exact Statement.event_examined (fun hReplaces => (hSame hReplaces).imp_right Waiting.justified) e hNew
    · intro y hFreeY hBehind new hApply
      rw [hRow] at hBehind
      exact hBehind.later hFreeY (Statement.apply_later hMatch hApply) new rfl
    · exact fun t' hNe => s.setStage_other hNe _
    intro y st' hWriting
    have hAfter := (s.setStage_self t (World.afterWrite st)).symm.trans hWriting
    cases st with
    | _ => cases hAfter
  · exact hSerial.setStage t none (by simp)

theorem Serial.attachRun (t : Nat) (x : Row μ δ) (op : Operation) (runID : Option String) (job : Job μ δ) :
    Serial (s.attachRun t x op runID job) := by
  rw [World.attachRun]
  split
  · exact hSerial.setStage t _ (by simp)
  rename_i row hRow
  split
  next hOwned =>
    obtain ⟨owner, hOwner, _⟩ := Row.ownedBy_iff.mp hOwned
    refine hSerial.thread t none (by simp) le_rfl ?_ (append_nil _).symm hSerial.examined ?_ ?_ ?_
    · refine hSerial.owner.trans ?_
      rw [hRow]
      rfl
    · intro y hFree hBehind
      rw [hRow] at hBehind
      exact hBehind.later hFree (.inr ⟨rfl, by simp [hOwner]⟩)
    · exact fun t' hNe => s.setStage_other hNe _
    · intro y st hWriting
      cases (s.setStage_self t _).symm.trans hWriting
  · exact hSerial.setStage t _ (by simp)

end

/-- The names of a reservation's version: no version its caller has not read. -/
def Current (s : World μ δ) : Action μ δ → Prop
  | .call _ (.reserveOperation version _) => ∀ row, s.row = some row → version ≤ row.version
  | _ => True

theorem Serial.call (hSerial : Serial s) {c : Call μ δ} (hNow : Current s (.call t c)) : Serial (s.call t c) := by
  rw [World.call]
  split
  · exact hSerial
  rename_i row hRow
  split
  · exact hSerial
  rename_i stage hBegin
  refine hSerial.thread t none (by simp) (Nat.le_succ _) hSerial.owner (append_nil _).symm
    hSerial.examined (fun _ _ hBehind => hBehind) (fun t' hNe => s.setStage_other hNe stage) ?_
  intro x st hWriting hReplaces
  have hStage : stage = some (.writing x st) := (s.setStage_self t stage).symm.trans hWriting
  subst hStage
  have hHere : row.Behind s.row := fun current h => .inr (Option.some.inj (h.symm.trans hRow))
  rcases Call.begin_ok hBegin with ⟨st', hSt, hIssued, hReserve⟩ | ⟨op, hSt, _⟩ | ⟨op, runID, job, hSt, _⟩
  · cases hSt
    cases hIssued with
    | reserve version kind hFree hMay =>
      obtain ⟨kind', rfl⟩ := hReserve version _ rfl
      refine ⟨hFree, ⟨hNow row hRow, hMay, rfl⟩, hHere, ?_⟩
      rintro id ⟨⟩
      exact ⟨le_rfl, Nat.lt_succ_self _⟩
    | edit e hFree => exact ⟨hFree, rfl, hHere, by rintro id ⟨⟩⟩
    | restore hFree => exact ⟨hFree, rfl, hHere, by rintro id ⟨⟩⟩
    | _ => cases hReplaces
  · cases hSt
  · cases hSt

variable [DecidableEq μ] [DecidableEq δ] {codec : Codec μ δ}

theorem Serial.work (hSerial : Serial s) {op : Operation} {runID : Option String} {job : Job μ δ}
    (hKind : job.kind = op.kind) :
    Serial (s.work codec t x op runID job) := by
  have hSound : (job.work codec s.packages x op runID).Sound codec s.packages x op := Job.work_sound hKind
  have hWriting : ∀ {st}, Completes codec x op st →
      ∀ y st', some (Stage.writing x st) = some (.writing y st') → st'.replaces = false := by
    rintro st hEnds _ _ ⟨⟩
    exact hEnds.replaces
  rw [World.work]
  split
  next st hOut =>
    rw [hOut] at hSound
    exact hSerial.setStage t _ (hWriting hSound)
  next package st hOut =>
    rw [hOut] at hSound
    exact hSerial.moves t _ [] rfl rfl rfl (append_nil _).symm (forall_mem_nil _) (hWriting hSound)
  next package st hOut =>
    rw [hOut] at hSound
    refine hSerial.moves t _ _ rfl rfl rfl rfl ?_ (hWriting hSound.2.1)
    rintro e hMem
    exact ⟨_, _, _, _, mem_singleton.mp hMem⟩
  · exact hSerial.setStage t _ (by simp)

theorem Serial.advance (hSerial : Serial s) (hGiven : s.Assigned) (t : Nat) : Serial (s.advance codec t) := by
  rw [World.advance]
  split
  · exact hSerial
  · exact hSerial.write ‹_›
  · exact hSerial.attachRun t _ _ _ _
  next hStage => exact hSerial.work (hGiven t _ hStage).2
  · refine hSerial.setStage t _ ?_
    rintro _ _ ⟨⟩
    rfl
  · exact hSerial.moves t none [] rfl rfl rfl (append_nil _).symm (forall_mem_nil _) (by simp)

omit [DecidableEq μ] [DecidableEq δ] in
theorem serial_fresh (hFresh : s.Fresh) : s.Assigned ∧ Serial s := by
  obtain ⟨⟨row, hRow, _, _, hFree, _⟩, hIdle, _, hHist⟩ := hFresh
  have hNone : ∀ t stage, s.stage t ≠ some stage := fun t stage hStage => by
    cases (hIdle t).symm.trans hStage
  refine ⟨fun t stage hStage => (hNone t stage hStage).elim, ?_, ?_, ?_, ?_, ?_, ?_⟩
  · rw [hHist, hRow]
    simp [ownerFrom, hFree]
  · simp [hHist, reservedIDs]
  · simp [hHist, reservedIDs]
  · simp [hHist]
  · exact fun t x st hStage => (hNone t _ hStage).elim
  · exact fun t t' x x' st st' id hStage => (hNone t _ hStage).elim

theorem serial_next {action : Action μ δ} (hSerial : s.Assigned ∧ Serial s) (hNow : Current s action) :
    ((builder codec).next s action).Assigned ∧ Serial ((builder codec).next s action) := by
  obtain ⟨hGiven, hSerial⟩ := hSerial
  cases action with
  | call t c => exact ⟨hGiven.call t c, hSerial.call hNow⟩
  | advance t => exact ⟨hGiven.advance t, hSerial.advance hGiven t⟩
  | restart =>
    refine ⟨?_, { hSerial with waiting := ?_, apart := ?_ }⟩
    · rintro t stage ⟨⟩
    · rintro t x st ⟨⟩
    · rintro t t' x x' st st' id ⟨⟩

structure Serialised (history : List (Event μ δ)) : Prop where
  /-- A reservation replaced the row its guard examined, and records the state it was taken from. -/
  reserved : ∀ op examined replaced, reserved op examined replaced ∈ history →
    examined = replaced ∧ reservable replaced op.kind = .ok () ∧ op.previousState = replaced.state
  edited : ∀ examined replaced, edited examined replaced ∈ history → examined = replaced
  /-- Between a reservation and the completion of its operation nothing edits or deletes the draft. -/
  exclusive : ∀ before op examined replaced after, history = before ++ .reserved op examined replaced :: after →
    finished op.id ∉ after → ∀ e ∈ after, e.changesDraft = false
  once : ∀ id, history.countP (finishes id) ≤ 1

theorem draft_calls_serialised {s : World μ δ} (hReach : (builder codec).Reachable Current s) :
    Serialised s.history := by
  obtain ⟨_, hSerial⟩ := hReach.invariant (fun _ => serial_fresh) fun _ _ hSerial _ => serial_next hSerial
  refine ⟨fun op examined replaced hMem => hSerial.examined _ hMem,
    fun examined replaced hMem => hSerial.examined _ hMem, ?_, ?_⟩
  · intro before op examined replaced after hHist hOpen
    have hOwner := hSerial.owner
    rw [hHist, ownerFrom_append, bind_eq_some_iff] at hOwner
    obtain ⟨owner, _, hOwner⟩ := hOwner
    rw [ownerFrom_cons, step, bind_eq_some_iff] at hOwner
    obtain ⟨next, hNext, hAfter⟩ := hOwner
    rw [ite_none_right_eq_some] at hNext
    cases hNext.2
    exact owned_until_finished hAfter hOpen
  intro id
  have hCount := count_finishes id hSerial.owner
  have hOnce := nodup_iff_count_le_one.mp hSerial.nodup id
  rw [if_neg (by simp : none ≠ some id)] at hCount
  omega

def sampleCodec : Codec (List String) (Package (List String)) := ⟨some, fun sha => [UInt8.ofNat sha.length], id⟩

def sampleDraft : Row (List String) (Package (List String)) where
  version := 1
  state := .valid
  manifest := ["run.sh"]
  candidates := [⟨"run.sh", "a"⟩, ⟨"run.sh", "bb"⟩]
  selected := [⟨"run.sh", "a"⟩]
  packageDigest := none
  runID := none
  operation := none
  proposal := none
  change := none

def sampleStart : World (List String) (Package (List String)) := ⟨some sampleDraft, 0, fun _ => none, [], []⟩

theorem sampleStart_fresh : sampleStart.Fresh :=
  ⟨⟨sampleDraft, rfl, rfl, ⟨true, rfl⟩, rfl, rfl⟩, fun _ => rfl, rfl, rfl⟩

theorem draft_calls_serialised_packaging : Serialised ((builder sampleCodec).exec sampleStart
      [.call 0 (.reserveOperation 1 .package), .advance 0, .call 0 (.failOperation 0), .advance 0, .advance 0]).history :=
  draft_calls_serialised (.of_allowed sampleStart_fresh
    ⟨⟨rfl, fun _ h => by cases h; decide⟩, ⟨some_ne_none _, trivial⟩, ⟨rfl, trivial⟩,
      ⟨some_ne_none _, trivial⟩, ⟨some_ne_none _, trivial⟩, trivial⟩)

theorem reservation_of_unread_version :
    ∃ s, (builder sampleCodec).Reachable (fun _ _ => True) s ∧ ¬Serialised s.history ∧
      s.row.map (fun row => (row.state, row.operation)) = some (.analyzing, some ⟨0, .package, .valid⟩) := by
  refine ⟨(builder sampleCodec).exec sampleStart
    [.call 0 (.reserveOperation 2 .package), .call 1 (.edit 1 (.update ["run.sh"] [] false) none), .advance 1,
      .advance 0], .of_allowed sampleStart_fresh ?_, ?_, rfl⟩
  · exact ⟨⟨rfl, trivial⟩, ⟨rfl, trivial⟩, ⟨some_ne_none _, trivial⟩, ⟨some_ne_none _, trivial⟩, trivial⟩
  intro hSerialised
  have hRead := hSerialised.reserved ⟨0, .package, .valid⟩ sampleDraft
    { sampleDraft with version := 2, selected := [], state := .needsInput } (.tail _ (.head _))
  exact absurd hRead.1 (by decide)

end LocalModelWorks.RecipeBuilder
