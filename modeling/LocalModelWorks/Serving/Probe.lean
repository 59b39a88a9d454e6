import LocalModelWorks.Transition

/-!
# Probes of a serving target

Three consecutive failures clear what a prober knows of its target: the detected backend and the baselines of
its counters. A probe of TensorFold that succeeds resets the count of failures, and a probe of another backend
does not.
-/

namespace LocalModelWorks.Serving

open Transition

inductive Backend
  | unknown
  | vllm
  | sglang
  | llamacpp
  | tensorfold
  deriving DecidableEq

structure DepState (β : Type) where
  backend : Backend
  backendAt : Nat
  failCount : Nat
  baselines : β

/-- Whose counters a body of `/metrics` has. -/
inductive Metrics
  | vllm
  | sglang
  | other

/-- What the requests of a probe find: `none` for one that fails, for `/health` whether a document of TensorFold is
valid, and for each backend the counters that its branch stores. -/
structure Answers (β : Type) where
  now : Nat
  metrics : Option Metrics
  health : Option (Option Bool)
  serverInfo : Bool
  slots : Bool
  sample : Backend → Option (β → β)

variable {β : Type}

variable (zero : β)

/-- A failed probe: the third one clears the backend and the baselines. -/
def fail (st : DepState β) : Bool × DepState β :=
  let st := { st with failCount := st.failCount + 1 }
  (false, if 3 ≤ st.failCount then { st with backend := .unknown, baselines := zero } else st)

variable {zero} {st : DepState β} {a : Answers β}

def silent (now : Nat) : Answers Nat := ⟨now, none, none, false, false, fun _ => none⟩

end LocalModelWorks.Serving
