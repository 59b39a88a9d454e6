import LocalModelWorks.JsonReader

/-!
# Saved recipe changes

`preserveSavedValue` reapplies to a new source the differences between the original source
and the saved recipe. Arrays are merged by the names of their entries, else by position,
else by line.
-/

namespace LocalModelWorks.Recipe.Preserve

open Json (Text)
open KeyMap

variable {ε : Type}

inductive PreserveError (ε : Type)
  /-- "preserve saved recipe entries: %w" -/
  | entries (e : ε)
  | decode
  deriving DecidableEq

/-- `sourceconfig.MergeLocalChanges` of an original, a local and an incoming text. -/
abbrev LineMerge (ε : Type) := Text → Text → Text → Except ε Text

variable (key : Text)

def entryName : Json → Option Text
  | .object members =>
    match get key members with
    | some (.string name) => if name = [] then none else some name
    | _ => none
  | _ => none

def indexFrom (key : Text) (found : List (Text × Json)) : List Json → Option (List (Text × Json))
  | [] => some found
  | value :: rest =>
    match entryName key value with
    | none => none
    | some name => if (get name found).isSome then none else indexFrom key (put name value found) rest

def index (values : List Json) : Option (List (Text × Json)) := indexFrom key [] values

structure Indexes where
  base : List (Text × Json)
  saved : List (Text × Json)
  target : List (Text × Json)

def indexes (base saved target : List Json) : Option Indexes := do
  some ⟨← index key base, ← index key saved, ← index key target⟩

def collect (key : Text) : List Json → List (Text × Json) → List Json × List (Text × Json)
  | [], remaining => ([], remaining)
  | value :: rest, remaining =>
    match (entryName key value).bind fun name => (get name remaining).map fun entry => (name, entry) with
    | none => collect key rest remaining
    | some (name, entry) =>
      let r := collect key rest (erase name remaining)
      (entry :: r.1, r.2)

def arrange (target saved : List Json) (remaining : List (Text × Json)) : List Json :=
  let r := collect key target remaining
  r.1 ++ (collect key saved r.2).1

def preserveEntry (name : Text) (base : Json) (saved target : List (Text × Json))
    (value : Json → Json → Except (PreserveError ε) Json) : Except (PreserveError ε) (List (Text × Json)) :=
  match get name saved with
  | none => .ok (erase name target)
  | some savedValue =>
    if base = savedValue then .ok target
    else match value savedValue ((get name target).getD .null) with
      | .error e => .error e
      | .ok merged => .ok (put name merged target)

def addMembers (base saved target : List (Text × Json)) : List (Text × Json) :=
  saved.foldl (fun target m => if (get m.1 base).isSome then target else put m.1 m.2 target) target

def preserveLines (merge : LineMerge ε) (base saved target : List Json) : Except (PreserveError ε) Json :=
  match merge (Json.encodeLines base) (Json.encodeLines saved) (Json.encodeLines target) with
  | .error e => .error (.entries e)
  | .ok text =>
    match Json.decodeAll text with
    | none => .error .decode
    | some items => .ok (.array items)

def preserveNamed (saved target : List Json) (found : Indexes)
    (entries : Except (PreserveError ε) (List (Text × Json))) : Except (PreserveError ε) Json :=
  if found.base = found.saved then .ok (.array (arrange key target saved found.target))
  else match entries with
    | .error e => .error e
    | .ok merged => .ok (.array (arrange key target saved (addMembers found.base found.saved merged)))

def nameKey : Text := "name".toList

def pathKey : Text := "path".toList

mutual

def preserveSavedValue (merge : LineMerge ε) : Json → Json → Json → Except (PreserveError ε) Json
  | .object base, saved, target =>
    if .object base = saved then .ok target
    else match saved, target with
      | .object saved, .object target =>
        match preserveMembers merge base saved target with
        | .error e => .error e
        | .ok merged => .ok (.object (addMembers base saved merged))
      | _, _ => .ok saved
  | .array base, saved, target =>
    if .array base = saved then .ok target
    else match saved, target with
      | .array saved, .array target =>
        match indexes nameKey base saved target with
        | some found =>
          preserveNamed nameKey saved target found (preserveEntries merge nameKey base found.saved found.target)
        | none =>
          match indexes pathKey base saved target with
          | some found =>
            preserveNamed pathKey saved target found (preserveEntries merge pathKey base found.saved found.target)
          | none =>
            if base.length = saved.length ∧ base.length = target.length then
              match preserveItems merge base saved target with
              | .error e => .error e
              | .ok items => .ok (.array items)
            else preserveLines merge base saved target
      | _, _ => .ok saved
  | base, saved, target => if base = saved then .ok target else .ok saved

def preserveMembers (merge : LineMerge ε) :
    List (Text × Json) → List (Text × Json) → List (Text × Json) → Except (PreserveError ε) (List (Text × Json))
  | [], _, target => .ok target
  | (name, base) :: rest, saved, target =>
    match preserveEntry name base saved target (preserveSavedValue merge base) with
    | .error e => .error e
    | .ok target => preserveMembers merge rest saved target

/-- The same loop over the index of the base, whose entries are taken from the array itself. -/
def preserveEntries (merge : LineMerge ε) (key : Text) :
    List Json → List (Text × Json) → List (Text × Json) → Except (PreserveError ε) (List (Text × Json))
  | [], _, target => .ok target
  | base :: rest, saved, target =>
    match entryName key base with
    | none => preserveEntries merge key rest saved target
    | some name =>
      match preserveEntry name base saved target (preserveSavedValue merge base) with
      | .error e => .error e
      | .ok target => preserveEntries merge key rest saved target

def preserveItems (merge : LineMerge ε) : List Json → List Json → List Json → Except (PreserveError ε) (List Json)
  | base :: bases, saved :: saveds, target :: targets =>
    match preserveSavedValue merge base saved target with
    | .error e => .error e
    | .ok value =>
      match preserveItems merge bases saveds targets with
      | .error e => .error e
      | .ok values => .ok (value :: values)
  | _, _, _ => .ok []

end

end LocalModelWorks.Recipe.Preserve
