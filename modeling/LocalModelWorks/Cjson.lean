import LocalModelWorks.JsonReader

/-!
# Canonical JSON documents

A decoded object is a Go map: a later member replaces an earlier one of the same key. Its
members are written in the order of the keys, so the text depends on the map only.
-/

namespace LocalModelWorks.Cjson

open List Json KeyMap

def writeAll (close : Char) (first : Bool) : List Text → Text
  | [] => [close]
  | part :: rest => (if first then [] else [',']) ++ (part ++ writeAll close false rest)

theorem sizeOf_member {members : List (Text × Json)} {m : Text × Json} (h : m ∈ members) :
    sizeOf m.2 < sizeOf (Json.object members) := by
  have hLess := sizeOf_lt_of_mem h
  cases m
  simp at hLess ⊢
  omega

def encode : Json → Text
  | .array items => '[' :: writeAll ']' true (items.map encode)
  | .object members => '{' :: writeAll '}' true
      ((ofEntries (members.map fun m => (m.1, encode m.2))).map fun e => printString e.1 ++ ':' :: e.2)
  | scalar => scalar.print
decreasing_by
  · decreasing_tactic
  · exact sizeOf_member ‹_›

/-- Equality with objects as finite maps and numbers by their literals. -/
inductive Same : Json → Json → Prop
  | scalar {j : Json} (h : j.isScalar = true) : Same j j
  | array {xs ys : List Json} (h : Forall₂ Same xs ys) : Same (.array xs) (.array ys)
  | object {ms ns : List (Text × Json)}
      (h : ∀ k, Option.Rel Same (KeyMap.get k (ofEntries ms)) (KeyMap.get k (ofEntries ns))) :
      Same (.object ms) (.object ns)

def sorted : Json → Json
  | .array items => .array (items.map sorted)
  | .object members => .object (ofEntries (members.map fun m => (m.1, sorted m.2)))
  | scalar => scalar
decreasing_by
  · decreasing_tactic
  · exact sizeOf_member ‹_›

variable {k : Text} {ms ns : List (Text × Json)}

theorem writeAll_items (first : Bool) (items : List Json) :
    writeAll ']' first (items.map print) = printItems first items := by
  induction items generalizing first with
  | nil => rfl
  | cons j rest ih => rw [map_cons, writeAll, printItems, ih]

theorem writeAll_members (first : Bool) (ms : List (Text × Json)) :
    writeAll '}' first (ms.map fun m => printString m.1 ++ ':' :: m.2.print) = printMembers first ms := by
  induction ms generalizing first with
  | nil => rfl
  | cons m rest ih => rw [map_cons, writeAll, printMembers, ih, append_assoc, cons_append]

theorem encode_eq (j : Json) : encode j = (sorted j).print := by
  induction j using induct with
  | scalar j hScalar => cases j <;> first | cases hScalar; done | simp [encode, sorted]
  | array items ih =>
    rw [encode, sorted, print, ← writeAll_items, map_map]
    exact congrArg _ (congrArg _ (map_congr_left ih))
  | object ms ih =>
    have hAll : ms.map (fun m => (m.1, encode m.2)) = (ms.map fun m => (m.1, sorted m.2)).map fun m => (m.1, m.2.print) := by
      rw [map_map]
      exact map_congr_left fun m hm => congrArg _ (ih m hm)
    rw [encode, sorted, print, hAll, ofEntries_map, map_map, ← writeAll_members]
    rfl

theorem sorted_object_iff : sorted (.object ms) = sorted (.object ns) ↔
    ∀ k, (KeyMap.get k (ofEntries ms)).map sorted = (KeyMap.get k (ofEntries ns)).map sorted := by
  rw [sorted, sorted, Json.object.injEq]
  simp only [← get_map fun _ => sorted, ← ofEntries_map]
  exact ⟨fun h k => by rw [h], KeyMap.ext (ordered_ofEntries _) (ordered_ofEntries _)⟩

theorem rel_iff {x y : Option Json} (h : ∀ a ∈ x, ∀ b, sorted a = sorted b ↔ Same a b) :
    x.map sorted = y.map sorted ↔ Option.Rel Same x y := by
  cases x <;> cases y <;> simp_all

theorem sorted_eq_iff (a : Json) : ∀ b, sorted a = sorted b ↔ Same a b := by
  induction a using induct with
  | scalar a hScalar =>
    refine fun b => ⟨fun h => ?_, ?_⟩
    · obtain rfl : b = a := by cases a <;> cases b <;> simp_all [sorted, isScalar]
      exact .scalar hScalar
    rintro (_ | _ | _)
    · rfl
    all_goals cases hScalar
  | array xs ih =>
    intro b
    cases b with
    | array ys =>
      have hItems : Forall₂ (fun x y => sorted x = sorted y) xs ys ↔ Forall₂ Same xs ys := by
        rw [forall₂_iff_zip, forall₂_iff_zip]
        exact and_congr_right fun _ => forall₂_congr fun x y => imp_congr_right fun h => ih x (of_mem_zip h).1 y
      rw [sorted, sorted, Json.array.injEq, ← forall₂_eq_eq_eq, forall₂_map_left_iff, forall₂_map_right_iff, hItems]
      exact ⟨.array, fun h => by cases h with | scalar h => cases h | array h => exact h⟩
    | _ => exact iff_of_false (by simp [sorted]) fun h => by cases h
  | object ms ih =>
    intro b
    cases b with
    | object ns =>
      rw [sorted_object_iff, forall_congr' fun k => rel_iff fun j hj => ih (k, j) (mem_of_get_ofEntries hj)]
      exact ⟨.object, fun h => by cases h with | scalar h => cases h | object h => exact h⟩
    | _ => exact iff_of_false (by simp [sorted]) fun h => by cases h

theorem get_ofEntries_perm (hPerm : ms.Perm ns) (hKeys : (ms.map Prod.fst).Nodup) :
    KeyMap.get k (ofEntries ms) = KeyMap.get k (ofEntries ns) := by
  have hOne : ∀ x ∈ ms, ∀ y ∈ ms, x.1 = y.1 → x = y := fun x hx y hy => inj_on_of_nodup_map hKeys hx hy
  refine Option.ext fun j => ?_
  rw [get_ofEntries hOne, get_ofEntries (by simpa [hPerm.mem_iff] using hOne), hPerm.mem_iff]

/-- Two values have the same encoding exactly when they are equal with objects as finite maps; the order of the
members of an object does not matter. -/
theorem encode_injective_up_to_order :
    (∀ a b, encode a = encode b ↔ Same a b) ∧ ∀ ms ns : List (Text × Json), ms.Perm ns → (ms.map Prod.fst).Nodup →
      encode (.object ms) = encode (.object ns) := by
  refine ⟨fun a b => ?_, fun ms ns hPerm hKeys => ?_⟩
  · rw [encode_eq, encode_eq, print_injective.eq_iff, sorted_eq_iff]
  · have hSame : sorted (.object ms) = sorted (.object ns) :=
      sorted_object_iff.mpr fun k => by rw [get_ofEntries_perm hPerm hKeys]
    rw [encode_eq, encode_eq, hSame]

theorem sorted_canonical (j : Json) : (sorted j).isCanonical = true ∧ sorted (sorted j) = sorted j := by
  induction j using induct with
  | scalar j hScalar => cases j <;> first | cases hScalar; done | simp [sorted, isCanonical]
  | array items ih =>
    rw [sorted, sorted, array_canonical, map_map, forall_mem_map]
    exact ⟨fun j hj => (ih j hj).1, congrArg _ (map_congr_left fun j hj => (ih j hj).2)⟩
  | object ms ih =>
    have hAll (m) (hm : m ∈ ofEntries ms) :=
      ih m (mem_of_get_ofEntries (get_of_nodup (nodup_of_ordered (ordered_ofEntries ms)) hm))
    have hOrd := ordered_ofEntries (ms.map fun m => (m.1, sorted m.2))
    rw [ofEntries_map] at hOrd
    rw [sorted, ofEntries_map, sorted, object_canonical, map_map, forall_mem_map]
    refine ⟨⟨hOrd, fun m hm => (hAll m hm).1⟩, congrArg _ ?_⟩
    have hSame := map_congr_left fun m hm => congrArg (Prod.mk m.1) (hAll m hm).2
    exact (congrArg _ hSame).trans (ofEntries_ordered hOrd)

/-- Arrays and objects are nested at most so deep. -/
def Within : Nat → Json → Bool
  | 0, .array _ => false
  | 0, .object _ => false
  | n + 1, .array items => items.all (Within n)
  | n + 1, .object members => members.all fun m => Within n m.2
  | _, _ => true

/-- The decoder gives up on a value that is nested deeper than it allows. -/
def decode (text : Text) : Option (Json × Text) := (readValue text.length text).filter fun found => Within 10000 found.1

theorem within_sorted {n : Nat} {j : Json} (h : Within n j = true) : Within n (sorted j) = true := by
  induction n generalizing j with
  | zero => cases j <;> first | cases h; done | simp [sorted, Within]
  | succ n ih =>
    cases j with
    | array items =>
      rw [Within, all_eq_true] at h
      rw [sorted, Within, all_map, all_eq_true]
      exact fun j hj => ih (h j hj)
    | object ms =>
      rw [Within, all_eq_true] at h
      rw [sorted, ofEntries_map, Within, all_map, all_eq_true]
      exact fun m hm => ih (h m (mem_of_get_ofEntries (get_of_nodup (nodup_of_ordered (ordered_ofEntries ms)) hm)))
    | _ => simp [sorted, Within]

/-- The decoder reads an encoding to its end and gives a value of the same content and encoding, if the value is not nested
too deep. -/
theorem canonical_text_decodes (j : Json) (hDeep : Within 10000 j = true) :
    ∃ d, decode (encode j) = some (d, []) ∧ Same j d ∧ encode d = encode j := by
  obtain ⟨hCanonical, hAgain⟩ := sorted_canonical j
  have hRead := readValue_print (sorted j) _ hCanonical ends_nil le_rfl
  rw [append_nil, ← encode_eq] at hRead
  refine ⟨_, ?_, (sorted_eq_iff j _).mp hAgain.symm, by rw [encode_eq, hAgain, ← encode_eq]⟩
  rw [decode, hRead, Option.filter_some, if_pos (within_sorted hDeep)]

theorem canonical_text_decodes_repeated : let j := Json.array [.object [(['a'], .null), (['a'], .array [])]]
    Within 10000 j = true ∧ ∃ d, decode (encode j) = some (d, []) ∧ Same j d ∧ encode d = encode j :=
  ⟨rfl, canonical_text_decodes _ rfl⟩

end LocalModelWorks.Cjson
