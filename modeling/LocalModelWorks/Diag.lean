import Mathlib.Data.List.Basic

/-!
# Diagnostics

The findings attached to a deployment. A finding is identified by its code and
its resource: a newer one replaces the older one in its place.
-/

namespace LocalModelWorks.Diag

inductive Severity
  | info
  | warning
  | error
  deriving DecidableEq

structure Diagnostic where
  severity : Severity
  code : String
  message : String
  resource : Option String
  deriving DecidableEq

variable (code message : String)

def info : Diagnostic := ⟨.info, code, message, none⟩

def warning : Diagnostic := ⟨.warning, code, message, none⟩

def error : Diagnostic := ⟨.error, code, message, none⟩

def hasError (diagnostics : List Diagnostic) : Bool := diagnostics.any fun d => d.severity = .error

variable (d : Diagnostic)

def Diagnostic.res (resource : String) : Diagnostic := { d with resource := some resource }

def Diagnostic.keyOf : String × String := (d.code, d.resource.getD "")

def put (next : Diagnostic) : List Diagnostic → List Diagnostic
  | [] => [next]
  | d :: rest => if d.keyOf = next.keyOf then next :: rest else d :: put next rest

variable (existing : List Diagnostic)

def compact : List Diagnostic := existing.foldl (fun acc d => put d acc) []

def upsert (next : Diagnostic) : List Diagnostic := put next (compact existing)

end LocalModelWorks.Diag
