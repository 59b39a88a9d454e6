import Mathlib.Data.List.TakeWhile
import LocalModelWorks.Downloads.Resource
import LocalModelWorks.SourceConfig.MergeEdits

/-!
# Stored endpoints

A deployment's endpoint is stored as one text. The view and the monitoring targets read it
with the same rule, which does not know the brackets that the writer puts around a host with
colons.
-/

namespace LocalModelWorks.Endpoint

open Option
open Downloads (cut)
open Recipe (Text)
open SourceConfig.Merge (isSpace digitsValue isSpace_of_isDigit digitsValue_repr)

def IsInt32 (n : Int) : Prop := -2147483648 ≤ n ∧ n < 2147483648

instance (n : Int) : Decidable (IsInt32 n) := inferInstanceAs (Decidable (_ ∧ _))

/-- `net.JoinHostPort` -/
def joinHostPort (host port : Text) : Text :=
  if ':' ∈ host then '[' :: (host ++ ']' :: ':' :: port) else host ++ ':' :: port

def stored (host : Text) (port : Int) : Option Text :=
  if host = [] then none else some (joinHostPort host (Json.decimal port))

/-- The spaces that `fmt.Sscanf` skips. A line break is an error. -/
def skipBlanks : Text → Option Text
  | [] => some []
  | c :: rest => if c = '\n' then none else if isSpace c then skipBlanks rest else some (c :: rest)

def scanSign : Text → Bool × Text
  | '-' :: digits => (true, digits)
  | '+' :: digits => (false, digits)
  | digits => (false, digits)

/-- `fmt.Sscanf` with `%d` into an `int32`. What follows the digits is not read. -/
def scanInt32 (text : Text) : Option Int :=
  (skipBlanks text).bind fun text =>
    (digitsValue ((scanSign text).2.takeWhile Char.isDigit)).bind fun n =>
      let value : Int := if (scanSign text).1 then -n else n
      if IsInt32 value then some value else none

def readEndpoint (column : Option Text) : Option (Text × Int) :=
  column.bind fun text =>
    if text = [] then none
    else match cut ':' text with
      | (host, some rest) => (scanInt32 rest).map fun port => (host, port)
      | (_, none) => none

def viewEndpoint : Option Text → Option (Text × Int) := readEndpoint

def monitoringEndpoint : Option Text → Option (Text × Int) := readEndpoint

variable {host : Text} {port : Int}

theorem cut_append (h : ':' ∉ host) (rest : Text) : cut ':' (host ++ ':' :: rest) = (host, some rest) := by
  have hHost : ∀ c ∈ host, decide (c ≠ ':') = true := fun c hc => decide_eq_true fun hEq => h (hEq ▸ hc)
  unfold cut
  rw [List.takeWhile_append_of_pos hHost, List.dropWhile_append_of_pos hHost]
  simp

theorem scanInt32_decimal (h : IsInt32 port) : scanInt32 (Json.decimal port) = some port := by
  have hDigits n : digitsValue (n.repr.toList.takeWhile Char.isDigit) = some n := by
    rw [List.takeWhile_eq_self_iff.mpr fun c hc => Json.isDigit_of_mem_repr hc, digitsValue_repr]
  have hBlank {c : Char} {rest : Text} (hLine : c ≠ '\n') (hSpace : isSpace c = false) :
      skipBlanks (c :: rest) = some (c :: rest) := by
    rw [skipBlanks, if_neg hLine, if_neg (Bool.eq_false_iff.mp hSpace)]
  cases port with
  | ofNat n =>
    obtain ⟨c, rest, hText⟩ := List.exists_cons_of_ne_nil (Json.repr_ne_nil n)
    have hDigit : c.isDigit = true := Json.isDigit_of_mem_repr (hText ▸ List.mem_cons_self)
    have hSign : scanSign (c :: rest) = (false, c :: rest) := by
      unfold scanSign
      split
      next hEq =>
        cases hEq
        exact absurd hDigit (by decide)
      next hEq =>
        cases hEq
        exact absurd hDigit (by decide)
      · rfl
    have hRead := hDigits n
    change scanInt32 n.repr.toList = _
    rw [hText] at hRead ⊢
    have hLine : c ≠ '\n' := fun hEq => absurd (hEq ▸ hDigit) (by decide)
    rw [scanInt32, hBlank hLine (isSpace_of_isDigit hDigit), bind_some, hSign, hRead, bind_some]
    exact if_pos h
  | negSucc n =>
    change scanInt32 ('-' :: n.succ.repr.toList) = _
    rw [scanInt32, hBlank (by decide) (by decide), bind_some, scanSign, hDigits, bind_some]
    exact if_pos h

/-- What is stored reads back as the same host and port exactly for the hosts without a colon. -/
theorem endpoint_survives_iff {text : Text} (hPort : IsInt32 port) (hStored : stored host port = some text) :
    (viewEndpoint (some text) = some (host, port) ∧ monitoringEndpoint (some text) = some (host, port)) ↔ ':' ∉ host := by
  change readEndpoint _ = _ ∧ readEndpoint _ = _ ↔ _
  rw [and_self]
  obtain ⟨hHost, rfl⟩ : host ≠ [] ∧ joinHostPort host (Json.decimal port) = text := by simpa [stored] using hStored
  constructor
  · intro hRead hColon
    -- the part of the stored text before its first colon has none
    rw [readEndpoint, bind_some] at hRead
    split at hRead
    · cases hRead
    split at hRead
    next before rest hCut =>
      obtain ⟨value, _, hEq⟩ := map_eq_some_iff.mp hRead
      have hPre : (joinHostPort host (Json.decimal port)).takeWhile (· ≠ ':') = host :=
        (congrArg Prod.fst hCut).trans (congrArg Prod.fst hEq)
      rw [← hPre] at hColon
      exact absurd (List.mem_takeWhile_imp hColon) (by simp)
    · cases hRead
  intro hColon
  rw [joinHostPort, if_neg hColon, readEndpoint, bind_some, cut_append hColon]
  simp [scanInt32_decimal hPort]

theorem endpoint_survives_name : viewEndpoint (some "node:8000".toList) = some ("node".toList, 8000) :=
  ((@endpoint_survives_iff "node".toList 8000 _ (by decide) (by decide)).mpr (by decide)).1

theorem endpoint_lost_for_ipv6 :
    stored "fd00::1".toList 8000 = some "[fd00::1]:8000".toList ∧ viewEndpoint (some "[fd00::1]:8000".toList) = none ∧
      stored "1:2".toList 8000 = some "[1:2]:8000".toList ∧
      monitoringEndpoint (some "[1:2]:8000".toList) = some ("[1".toList, 2) := by
  decide

end LocalModelWorks.Endpoint
