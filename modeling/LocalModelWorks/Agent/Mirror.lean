import LocalModelWorks.Transition

/-!
# The log of one rank and stream

A tailer reads the output of the container from its start (`LogsStreams` has no offset to start
at), and the controller appends every chunk it is sent (`appendLog` reads no offset).
-/

namespace LocalModelWorks.Agent.Mirror

open Transition List

abbrev Bytes := List UInt8

/-- Lines are given without their newline. -/
def text (lines : List Bytes) : Bytes := lines.flatMap (· ++ [10])

/-- `bufio.ScanLines` -/
def dropCR (line : Bytes) : Bytes := if line.getLast? = some 13 then line.dropLast else line

/-- How many lines the running tailer has read, whether the table has an entry for it, the file on the node and the
file of the controller. -/
structure State where
  tailer : Option Nat
  entry : Bool
  mirror : Bytes
  log : Bytes

def State.write (s : State) (line : Bytes) : State :=
  { s with mirror := s.mirror ++ (dropCR line ++ [10]), log := s.log ++ (dropCR line ++ [10]) }

inductive Event
  | startTailer
  | scan
  /-- The session ends when so much of the next line has been received: the scanner hands it out as a line. -/
  | close (received : Nat)
  | restart
  | logRequest (fromOffset : Nat)

variable (output : List Bytes)

def system : System State Event where
  init s := s = ⟨none, false, [], []⟩
  enabled s
    | .scan => ∃ n, s.tailer = some n ∧ n < output.length
    | _ => True
  next s
    | .startTailer => if s.entry then s else { s with tailer := some 0, entry := true }
    | .scan =>
      match s.tailer with
      | none => s
      | some n => { s.write (output.getD n []) with tailer := some (n + 1) }
    | .close received =>
      let cut := ((s.tailer.bind (output[·]?)).getD []).take received
      { (if cut = [] then s else s.write cut) with tailer := none }
    | .restart => { s with tailer := none, entry := false }
    | .logRequest fromOffset => { s with log := s.log ++ s.mirror.drop fromOffset }

/-- No line ends in a carriage return, a session lasts until the output is read, the agent restarts before a line is
mirrored, and a request asks for what is not there yet. -/
def Steady (s : State) : Event → Prop
  | .startTailer => True
  | .scan => ∀ n, s.tailer = some n → (output.getD n []).getLast? ≠ some 13
  | .close _ => ∀ n, s.tailer = some n → output.length ≤ n
  | .restart => s.mirror = []
  | .logRequest fromOffset => s.mirror.length ≤ fromOffset

def State.read (s : State) : Nat := s.tailer.getD (if s.entry then output.length else 0)

structure Exact (output : List Bytes) (s : State) : Prop where
  mirrored : s.mirror = s.log
  log : s.log = text (output.take (s.read output))
  followed : s.tailer.isSome → s.entry = true

variable {output : List Bytes} {s : State}

theorem text_take {n : Nat} (h : n < output.length) :
    text (output.take (n + 1)) = text (output.take n) ++ (output.getD n [] ++ [10]) := by
  rw [take_add_one, text, flatMap_append, getD_eq_getElem?_getD, getElem?_eq_getElem h]
  exact congrArg (_ ++ ·) (flatMap_singleton _ _)

theorem exact_step {e : Event} (h : Exact output s) (hOn : (system output).enabled s e)
    (hSteady : Steady output s e) : Exact output ((system output).next s e) := by
  obtain ⟨tailer, entry, mirror, log⟩ := s
  obtain ⟨hMirrored, hLog, hFollowed⟩ := h
  cases e with
  | startTailer =>
    cases entry with
    | true => exact ⟨hMirrored, hLog, hFollowed⟩
    | false =>
      cases tailer with
      | some n => cases hFollowed rfl
      | none => exact ⟨hMirrored, hLog, fun _ => rfl⟩
  | scan =>
    obtain ⟨n, rfl, hMore⟩ := hOn
    have hLine : dropCR (output.getD n []) = output.getD n [] := if_neg (hSteady n rfl)
    refine ⟨congrArg (· ++ _) hMirrored, ?_, hFollowed⟩
    refine Eq.trans ?_ (text_take hMore).symm
    rw [← hLine]
    exact congrArg (· ++ _) hLog
  | close received =>
    cases tailer with
    | none => simpa [system] using Exact.mk hMirrored hLog hFollowed
    | some n =>
      have hEnd : output.length ≤ n := hSteady n rfl
      obtain rfl : entry = true := hFollowed rfl
      have hDone : Exact output ⟨none, true, mirror, log⟩ := by
        refine ⟨hMirrored, hLog.trans (congrArg text ?_), fun _ => rfl⟩
        exact (take_of_length_le hEnd).trans take_length.symm
      simpa [system, getElem?_eq_none hEnd] using hDone
  | restart => exact ⟨hMirrored, hMirrored.symm.trans hSteady, nofun⟩
  | logRequest fromOffset => simpa [system, drop_eq_nil_of_le hSteady] using Exact.mk hMirrored hLog hFollowed

theorem log_complete (hReach : (system output).Reachable (Steady output) s) : s.log <+: text output ∧
    (s.entry = true → (system output).enabled s .scan ∨ s.log = text output) := by
  obtain ⟨-, hLog, -⟩ : Exact output s := by
    refine hReach.invariant ?_ fun _ _ h => exact_step h
    rintro _ rfl
    exact ⟨rfl, rfl, nofun⟩
  have hSplit : text (output.take (s.read output)) ++ text (output.drop (s.read output)) = text output := by
    rw [text, text, ← flatMap_append, take_append_drop, text]
  rw [hLog]
  refine ⟨⟨_, hSplit⟩, fun hEntry => ?_⟩
  by_cases hMore : s.read output < output.length
  · cases hTailer : s.tailer with
    | none => simp [State.read, hTailer, hEntry] at hMore
    | some n => exact .inl ⟨n, hTailer, by simpa [State.read, hTailer] using hMore⟩
  · exact .inr (by rw [take_of_length_le (Nat.le_of_not_lt hMore)])

theorem log_complete_one_line :
    ((system [[97]]).exec ⟨none, false, [], []⟩ [.startTailer, .scan]).log <+: text [[97]] := by
  have hRun : (system [[97]]).Allowed (Steady [[97]]) ⟨none, false, [], []⟩ [.startTailer, .scan] := by
    refine ⟨⟨trivial, trivial⟩, ⟨⟨0, rfl, by decide⟩, ?_⟩, trivial⟩
    rintro n ⟨⟩
    decide
  exact (log_complete (.of_allowed rfl hRun)).1

/-- After a restart the tailer reads the output again. -/
theorem log_repeated : ∃ s, (system [[97]]).Reachable (fun _ _ => True) s ∧ s.log = text [[97], [97]] := by
  have hRun : (system [[97]]).Allowed (fun _ _ => True) ⟨none, false, [], []⟩
      [.startTailer, .scan, .restart, .startTailer, .scan] :=
    ⟨⟨trivial, trivial⟩, ⟨⟨0, rfl, by decide⟩, trivial⟩, ⟨trivial, trivial⟩, ⟨trivial, trivial⟩,
      ⟨⟨0, rfl, by decide⟩, trivial⟩, trivial⟩
  exact ⟨_, .of_allowed rfl hRun, by decide⟩

end LocalModelWorks.Agent.Mirror
