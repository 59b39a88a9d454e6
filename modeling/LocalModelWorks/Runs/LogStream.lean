import LocalModelWorks.Transition
import LocalModelWorks.Runs.State

/-!
# The log stream of a run (`GET /runs/{id}/logs`)

Each poll sends what a read of the log finds behind the offset as a JSON string, and the event
id is the next offset. A string in JSON is text: bytes that are no UTF-8 are replaced.
-/

namespace LocalModelWorks.Runs.LogStream

open Transition List

abbrev Bytes := List UInt8

def maxLogChunk : Nat := 1048576

variable (file : Bytes)

/-- `ReadLog`: the chunk, the next offset and the size. A missing file reads as an empty one. -/
def readLog (offset maxBytes : Nat) : Bytes × Nat × Nat :=
  let maxBytes := min (if maxBytes = 0 then 262144 else maxBytes) maxLogChunk
  if file.length ≤ offset then ([], file.length, file.length)
  else
    let chunk := (file.drop offset).take maxBytes
    (chunk, offset + chunk.length, file.length)

variable (text : List Char)

def encode : Bytes := text.flatMap String.utf8EncodeChar

/-- Each byte that starts no character is replaced by U+FFFD. -/
def sanitizeFrom : Nat → Bytes → Bytes
  | 0, _ => []
  | fuel + 1, bytes =>
    match bytes.toByteArray.utf8DecodeChar? 0 with
    | some c => String.utf8EncodeChar c ++ sanitizeFrom fuel (bytes.drop c.utf8Size)
    | none => if bytes = [] then [] else encode [Char.ofNat 0xFFFD] ++ sanitizeFrom fuel bytes.tail

/-- What a client decodes from `json.Marshal(string(bytes))`. -/
def sanitize (bytes : Bytes) : Bytes := sanitizeFrom bytes.length bytes

/-- The offset, which is the id of the last event, and the data events as the client has decoded them. -/
structure State where
  offset : Nat
  data : Bytes

def State.poll (s : State) (file : Bytes) : State :=
  let (chunk, next, _) := readLog file s.offset 0
  if chunk = [] then s else ⟨next, s.data ++ sanitize chunk⟩

/-- A poll that finds so many bytes of the log, or the end event of a log that was delivered, with the end that the
agent has reported. A connection that is lost resumes at the last id. -/
inductive Event
  | poll (size : Nat)
  | finish (size «end» : Nat)

def system (start : Nat) : System State Event where
  init s := s = ⟨start, []⟩
  enabled s
    | .poll _ => True
    | .finish size _ => size ≤ s.offset
  next s
    | .poll size => s.poll (file.take size)
    | .finish _ «end» => { s with offset := «end» }

/-- The chunk is made of whole characters, and the end that was reported is where the stream is. -/
def Whole (s : State) : Event → Prop
  | .poll size => ∃ text, (readLog (file.take size) s.offset 0).1 = encode text
  | .finish _ «end» => «end» = s.offset

theorem sanitizeFrom_encode {fuel : Nat} (hFuel : (encode text).length ≤ fuel) :
    sanitizeFrom fuel (encode text) = encode text := by
  induction text generalizing fuel with
  | nil =>
    cases fuel with
    | zero | succ => rfl
  | cons c text ih =>
    have hSplit : encode (c :: text) = String.utf8EncodeChar c ++ encode text := flatMap_cons
    have hSize := String.length_utf8EncodeChar c
    have hPos := c.utf8Size_pos
    have hDecode : (encode (c :: text)).toByteArray.utf8DecodeChar? 0 = some c := by
      simpa [utf8Encode, encode] using @utf8DecodeChar?_utf8Encode_singleton_append text.utf8Encode c
    rw [hSplit, length_append] at hFuel
    obtain ⟨fuel, rfl⟩ : ∃ n, fuel = n + 1 := ⟨fuel - 1, by omega⟩
    rw [sanitizeFrom, hDecode]
    dsimp only
    rw [hSplit, ← hSize, drop_left, ih (by omega)]

theorem readLog_take (size offset : Nat) : ∃ chunk next all,
    readLog (file.take size) offset 0 = (chunk, next, all) ∧ chunk <+: file.drop offset ∧
      (chunk ≠ [] → next = offset + chunk.length) := by
  rw [readLog]
  split
  · exact ⟨_, _, _, rfl, nil_prefix, fun h => absurd rfl h⟩
  refine ⟨_, _, _, rfl, ?_, fun _ => rfl⟩
  rw [drop_take]
  exact .trans ( take_prefix _ _) ( take_prefix _ _)

/-- As long as each chunk is made of whole characters, the client has the log from where it started. -/
theorem log_stream_exact {file : Bytes} {start : Nat} {s : State} (hReach : (system file start).Reachable (Whole file) s) :
    start ≤ s.offset ∧ s.data = (file.drop start).take (s.offset - start) := by
  refine hReach.invariant (I := fun s => start ≤ s.offset ∧ s.data = (file.drop start).take (s.offset - start)) ?_ ?_
  · rintro s rfl
    simp
  rintro s e ⟨hStart, hData⟩ - hWhole
  cases e with
  | finish size «end» =>
    obtain rfl : «end» = s.offset := hWhole
    exact ⟨hStart, hData⟩
  | poll size =>
    obtain ⟨chunk, next, all, hRead, hPre, hNext⟩ := readLog_take file size s.offset
    obtain ⟨text, hText⟩ := hWhole
    obtain rfl : chunk = encode text := (congrArg Prod.fst hRead).symm.trans hText
    have hPoll : (system file start).next s (.poll size) = if encode text = [] then s else
        ⟨next, s.data ++ sanitize (encode text)⟩ := by
      simp only [system, State.poll, hRead]
    rw [hPoll]
    split
    · exact ⟨hStart, hData⟩
    next hSome =>
      obtain rfl := hNext hSome
      have hMore : s.offset + (encode text).length - start = s.offset - start + (encode text).length := by omega
      refine ⟨by dsimp only; omega, ?_⟩
      rw [hMore, take_add, ← hData, drop_drop, Nat.add_sub_cancel' hStart, ← prefix_iff_eq_take.mp hPre, sanitize,
        sanitizeFrom_encode text (Nat.le_refl _)]

theorem log_stream_exact_two_bytes : ((⟨0, []⟩ : State).poll (encode ['é'])).data = encode ['é'] := by
  have hRun : (system (encode ['é']) 0).Allowed (Whole (encode ['é'])) ⟨0, []⟩ [.poll 2] :=
    ⟨⟨trivial, ['é'], by decide +kernel⟩, trivial⟩
  exact (log_stream_exact (.of_allowed rfl hRun)).2

/-- A poll that reads the first byte of a character of two. -/
theorem log_stream_replaced : ∃ s, (system (encode ['é']) 0).Reachable (fun _ _ => True) s ∧ s.offset = 1 ∧
    s.data ≠ (encode ['é']).take 1 := by
  have hRun : (system (encode ['é']) 0).Allowed (fun _ _ => True) ⟨0, []⟩ [.poll 1] := ⟨⟨trivial, trivial⟩, trivial⟩
  exact ⟨_, .of_allowed rfl hRun, by decide +kernel, by decide +kernel⟩

/-- The stored state of a run, its log file, and the end of the log, which the service has in memory only. -/
structure Log where
  run : Runs.State
  file : Bytes
  logEnd : Option Nat

def Log.markLogEnd (l : Log) (endOffset : Nat) : Log :=
  if l.logEnd.any (endOffset ≤ ·) then l else { l with logEnd := some endOffset }

/-- One iteration of the handler: the offset after it, and the id and the size of the end event, if it sends one. -/
def Log.iterate (l : Log) (offset : Nat) : Nat × Option (Nat × Nat) :=
  let (chunk, next, size) := readLog l.file offset 0
  let offset := if chunk = [] then offset else next
  (offset, l.logEnd.bind fun «end» => if size ≤ offset && l.run.terminal then some («end», size) else none)

/-- The agent's final chunk marks the end. The check of an import marks it in a service of its own, which the handler
never sees. -/
inductive Change
  | append (bytes : Bytes)
  | enter (state : Runs.State)
  | finalChunk (endOffset : Nat)
  | imported (state : Runs.State) (file : Bytes)
  | restart

def Log.change (l : Log) : Change → Log
  | .append bytes => { l with file := l.file ++ bytes }
  | .enter state => { l with run := state }
  | .finalChunk endOffset => l.markLogEnd endOffset
  | .imported state file => if state.terminal then { l with run := state, file := file } else l
  | .restart => { l with logEnd := none }

def history : System Log Change where
  init l := l = ⟨.queued, [], none⟩
  enabled _ _ := True
  next := Log.change

/-- The end of the log is marked before its run has finished, and no restart follows. -/
def Marked (l : Log) : Change → Prop
  | .enter state | .imported state _ => state.terminal = true → l.logEnd.isSome
  | .restart => l.run.terminal = false
  | _ => True

theorem isSome_markLogEnd (l : Log) (endOffset : Nat) : (l.markLogEnd endOffset).logEnd.isSome := by
  rw [Log.markLogEnd]
  split
  next h => exact Option.isSome_of_any h
  · rfl

theorem Log.ends_iff (l : Log) (hEnd : l.run.terminal = true) :
    (l.iterate l.file.length).2.isSome ↔ l.logEnd.isSome := by
  have hRead : readLog l.file l.file.length 0 = ([], l.file.length, l.file.length) := if_pos (Nat.le_refl _)
  rw [Log.iterate, hRead]
  cases l.logEnd with
  | none => rfl
  | some «end» => simp [hEnd]

/-- A stream of a finished run ends when it has sent the log. -/
theorem log_stream_ends {l : Log} (hReach : history.Reachable Marked l) (hTerminal : l.run.terminal = true) :
    (l.iterate l.file.length).2.isSome := by
  refine (l.ends_iff hTerminal).mpr ?_
  refine hReach.invariant (I := fun l => l.run.terminal = true → l.logEnd.isSome) ?_ ?_ hTerminal
  · rintro _ rfl hQueued
    cases hQueued
  rintro l c hMarked - hGuard hDone
  cases c with
  | append bytes => exact hMarked hDone
  | enter state => exact hGuard hDone
  | finalChunk endOffset => exact isSome_markLogEnd l endOffset
  | imported state file =>
    dsimp only [history, Log.change] at hDone ⊢
    split at hDone
    next hFinished =>
      rw [if_pos hFinished]
      exact hGuard hFinished
    next hSkipped =>
      rw [if_neg hSkipped]
      exact hMarked hDone
  | restart => cases hDone.symm.trans hGuard

theorem log_stream_ends_succeeded : ((⟨.succeeded, [104], some 1⟩ : Log).iterate 1).2.isSome := by
  have hRun : history.Allowed Marked ⟨.queued, [], none⟩ [.append [104], .finalChunk 1, .enter .succeeded] :=
    ⟨⟨trivial, trivial⟩, ⟨trivial, trivial⟩, ⟨trivial, fun _ => rfl⟩, trivial⟩
  exact log_stream_ends (.of_allowed rfl hRun) rfl

def Log.after (changes : List Change) : Log := history.exec ⟨.queued, [], none⟩ changes

theorem Log.reachable_after (changes : List Change) : history.Reachable (fun _ _ => True) (.after changes) := by
  have hAllowed : ∀ l, history.Allowed (fun _ _ => True) l changes := by
    induction changes with
    | nil => exact fun _ => trivial
    | cons c rest ih => exact fun l => ⟨⟨trivial, trivial⟩, ih _⟩
  exact .of_allowed rfl (hAllowed _)

/-- The changes end a run whose stream does not end. -/
def Waits (changes : List Change) : Prop :=
  history.Reachable (fun _ _ => True) (.after changes) ∧ (Log.after changes).run.terminal = true ∧
    ((Log.after changes).iterate (Log.after changes).file.length).2 = none

/-- A run that failed before it had output, one whose controller was restarted, and an imported one. -/
theorem log_stream_waits : Waits [.enter .failed] ∧
    Waits [.append [104], .finalChunk 1, .enter .succeeded, .restart] ∧ Waits [.imported .succeeded [104]] :=
  ⟨⟨Log.reachable_after _, by decide⟩, ⟨Log.reachable_after _, by decide⟩, Log.reachable_after _, by decide⟩

end LocalModelWorks.Runs.LogStream
