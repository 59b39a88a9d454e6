import Mathlib.Data.List.Sort
import LocalModelWorks.FileTree
import LocalModelWorks.Separator

/-!
# Names, link targets and paths as bytes

A file name may hold every byte but NUL and the slash, a link target every byte but NUL; a
newline is as good as any other.
-/

namespace LocalModelWorks.Agent

abbrev Bytes := List UInt8

def newline : UInt8 := 10

def slash : UInt8 := 47

def ascii (text : String) : Bytes := text.toList.map fun c => c.toNat.toUInt8

def IsFileName (b : Bytes) : Prop := b ≠ [] ∧ 0 ∉ b ∧ slash ∉ b ∧ b ≠ ascii "." ∧ b ≠ ascii ".."

instance : DecidablePred IsFileName := fun _ => inferInstanceAs (Decidable (_ ∧ _ ∧ _ ∧ _ ∧ _))

abbrev FileName := {b : Bytes // IsFileName b}

abbrev Target := {b : Bytes // b ≠ [] ∧ 0 ∉ b}

def component (b : Bytes) : Component FileName :=
  if b = ascii ".." then .up else if h : IsFileName b then .name ⟨b, h⟩ else .here

/-- `filepath.IsAbs` of a link's text. -/
def isAbs (b : Bytes) : Bool := b.head? == some slash

def Target.parse (t : Target) : LinkTarget FileName := ⟨isAbs t.1, (t.1.splitOn slash).map component⟩

def relPath : List FileName → Bytes
  | [] => []
  | [name] => name.1
  | name :: dir => relPath dir ++ slash :: name.1

theorem relPath_cons_cons (name parent : FileName) (dir : List FileName) :
    relPath (name :: parent :: dir) = relPath (parent :: dir) ++ slash :: name.1 := rfl

theorem zero_notMem_relPath (location : List FileName) : 0 ∉ relPath location := by
  induction location with
  | nil => exact List.not_mem_nil
  | cons name dir ih =>
    cases dir with
    | nil => exact name.2.2.1
    | cons parent dir =>
      rw [relPath_cons_cons, List.mem_append, List.mem_cons]
      rintro (hDir | hSlash | hName)
      · exact ih hDir
      · exact absurd hSlash (by decide)
      · exact name.2.2.1 hName

def notAfter : Bytes → Bytes → Bool
  | [], _ => true
  | _ :: _, [] => false
  | a :: u, b :: v => if a = b then notAfter u v else a < b

end LocalModelWorks.Agent
