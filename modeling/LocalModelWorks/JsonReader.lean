import LocalModelWorks.Json
import LocalModelWorks.KeyMap
import Mathlib.Data.Char
import Mathlib.Data.List.Lex
import Mathlib.Data.List.TakeWhile

/-!
# Reading JSON

Decoded values, whose objects are finite maps, and a decoder for a text of values one after
the other. It reads the printed text of every decoded value back.
-/

namespace LocalModelWorks.Json

open List Option

instance : DecidableEq Json := fun a b => decidable_of_iff (a.print = b.print) print_injective.eq_iff

def isScalar : Json → Bool
  | array _ => false
  | object _ => false
  | _ => true

theorem induct {motive : Json → Prop} (scalar : ∀ j, j.isScalar = true → motive j)
    (array : ∀ items, (∀ j ∈ items, motive j) → motive (.array items))
    (object : ∀ members, (∀ m ∈ members, motive m.2) → motive (.object members)) (j : Json) : motive j :=
  @Json.rec motive (fun items => ∀ j ∈ items, motive j) (fun members => ∀ m ∈ members, motive m.2)
    (fun m => motive m.2) (scalar _ rfl) (fun _ => scalar _ rfl) (fun _ => scalar _ rfl) (fun _ => scalar _ rfl) array
    object (fun _ h => nomatch h) (fun _ _ hj hRest => forall_mem_cons.mpr ⟨hj, hRest⟩) (fun _ h => nomatch h)
    (fun _ _ hm hRest => forall_mem_cons.mpr ⟨hm, hRest⟩) (fun _ _ hj => hj) j

mutual

def isCanonical : Json → Bool
  | array items => itemsCanonical items
  | object members => decide (KeyMap.Ordered members) && membersCanonical members
  | _ => true

def itemsCanonical : List Json → Bool
  | [] => true
  | j :: rest => j.isCanonical && itemsCanonical rest

def membersCanonical : List (Text × Json) → Bool
  | [] => true
  | (_, j) :: rest => j.isCanonical && membersCanonical rest

end

abbrev Value := { j : Json // j.isCanonical = true }

variable {items : List Json} {r : Text} {fuel : Nat}

theorem itemsCanonical_iff : itemsCanonical items = true ↔ ∀ j ∈ items, j.isCanonical = true := by
  induction items with
  | nil => simp [itemsCanonical]
  | cons j rest ih => simp [itemsCanonical, ih]

theorem membersCanonical_iff {members : List (Text × Json)} :
    membersCanonical members = true ↔ ∀ m ∈ members, m.2.isCanonical = true := by
  induction members with
  | nil => simp [membersCanonical]
  | cons m rest ih => simp [membersCanonical, ih]

theorem array_canonical : (array items).isCanonical = true ↔ ∀ j ∈ items, j.isCanonical = true := by
  rw [isCanonical, itemsCanonical_iff]

theorem object_canonical {members : List (Text × Json)} :
    (object members).isCanonical = true ↔ KeyMap.Ordered members ∧ ∀ m ∈ members, m.2.isCanonical = true := by
  rw [isCanonical, Bool.and_eq_true, decide_eq_true_eq, membersCanonical_iff]

def isSpace (c : Char) : Bool := c = ' ' || c = '\n' || c = '\r' || c = '\t'

def skipSpace (text : Text) : Text := text.dropWhile isSpace

def readWord (word : Text) (j : Json) (text : Text) : Option (Json × Text) :=
  if word.isPrefixOf text then some (j, text.drop word.length) else none

def readNumber (text : Text) : Option (Json × Text) :=
  if h : text.takeWhile isNumberChar ≠ [] then
    some (number ⟨text.takeWhile isNumberChar, h, fun _ hc => mem_takeWhile_imp hc⟩, text.dropWhile isNumberChar)
  else none

def readKey : Text → Option (Text × Text)
  | '"' :: rest => do
    let (k, rest) ← readString rest.length rest
    match skipSpace rest with
    | ':' :: rest => some (k, rest)
    | _ => none
  | _ => none

mutual

def readValue : Nat → Text → Option (Json × Text)
  | 0, _ => none
  | _ + 1, [] => none
  | fuel + 1, c :: rest =>
    if c = '"' then (readString rest.length rest).map fun s => (string s.1, s.2)
    else if c = '[' then
      match skipSpace rest with
      | ']' :: after => some (array [], after)
      | text => (readItems fuel text).map fun r => (array r.1, r.2)
    else if c = '{' then
      match skipSpace rest with
      | '}' :: after => some (object [], after)
      | text => (readMembers fuel text).map fun r => (object (KeyMap.ofEntries r.1), r.2)
    else if c = 'n' then readWord "null".toList null (c :: rest)
    else if c = 't' then readWord "true".toList (bool true) (c :: rest)
    else if c = 'f' then readWord "false".toList (bool false) (c :: rest)
    else readNumber (c :: rest)

def readItems : Nat → Text → Option (List Json × Text)
  | 0, _ => none
  | fuel + 1, text => do
    let (j, rest) ← readValue fuel (skipSpace text)
    match skipSpace rest with
    | ',' :: after => (readItems fuel after).map fun r => (j :: r.1, r.2)
    | ']' :: after => some ([j], after)
    | _ => none

def readMembers : Nat → Text → Option (List (Text × Json) × Text)
  | 0, _ => none
  | fuel + 1, text => do
    let (k, rest) ← readKey (skipSpace text)
    let (j, rest) ← readValue fuel (skipSpace rest)
    match skipSpace rest with
    | ',' :: after => (readMembers fuel after).map fun r => ((k, j) :: r.1, r.2)
    | '}' :: after => some ([(k, j)], after)
    | _ => none

end

def decodeFrom : Nat → Text → Option (List Json)
  | 0, _ => none
  | fuel + 1, text =>
    match skipSpace text with
    | [] => some []
    | c :: rest => do
      let (j, after) ← readValue (c :: rest).length (c :: rest)
      let js ← decodeFrom fuel after
      some (j :: js)

def decodeAll (text : Text) : Option (List Json) := decodeFrom (text.length + 1) text

theorem skipSpace_cons {c : Char} (h : isSpace c = false) (rest : Text) : skipSpace (c :: rest) = c :: rest := by
  rw [skipSpace, dropWhile_cons_of_neg (by simp [h])]

theorem print_cons (j : Json) : ∃ c rest, j.print = c :: rest ∧ isSpace c = false ∧ c ≠ ']' := by
  obtain ⟨c, rest, hPrint, -, hStarts⟩ := head_print j
  have hNot : ∀ d, starts d = false → c ≠ d := by
    rintro d hd rfl
    rw [hd] at hStarts
    cases hStarts
  refine ⟨c, rest, hPrint, ?_, hNot _ (by decide)⟩
  simp [isSpace, hNot ' ' (by decide), hNot '\n' (by decide), hNot '\r' (by decide), hNot '\t' (by decide)]

theorem skipSpace_print (j : Json) (r : Text) : skipSpace (j.print ++ r) = j.print ++ r := by
  obtain ⟨c, rest, hPrint, hSpace, _⟩ := print_cons j
  rw [hPrint, cons_append, skipSpace_cons hSpace]

theorem skipSpace_printString (k r : Text) : skipSpace (printString k ++ r) = printString k ++ r :=
  skipSpace_cons (by decide) _

theorem readString_printString (text r : Text) :
    readString (text.flatMap escapeChar ++ '"' :: r).length (text.flatMap escapeChar ++ '"' :: r) = some (text, r) :=
  readString_print text r _ (by simp)

theorem readKey_print (k r : Text) : readKey (printString k ++ ':' :: r) = some (k, r) := by
  have hText : printString k ++ ':' :: r = '"' :: (k.flatMap escapeChar ++ '"' :: ':' :: r) := by simp [printString]
  rw [hText, readKey, readString_printString]
  rfl

theorem dropWhile_number {a : Text} (ha : ∀ c ∈ a, isNumberChar c = true) (hr : Ends r) :
    (a ++ r).dropWhile isNumberChar = r := by
  rw [dropWhile_append_of_pos ha]
  cases r with
  | nil => rfl
  | cons c rest => rw [dropWhile_cons_of_neg (by simp [hr c rfl])]

theorem readNumber_print (literal : Literal) (hr : Ends r) :
    readNumber (literal.text ++ r) = some (number literal, r) := by
  have hTake := takeWhile_number literal.chars hr
  have hDrop := dropWhile_number literal.chars hr
  rw [readNumber, dif_pos (by rw [hTake]; exact literal.nonempty), hDrop]
  simp only [hTake]

theorem readValue_number (literal : Literal) (hr : Ends r) (fuel : Nat) :
    readValue (fuel + 1) (literal.text ++ r) = some (number literal, r) := by
  have hRead := readNumber_print literal hr
  obtain ⟨c, rest, hText⟩ := exists_cons_of_ne_nil literal.nonempty
  have hNumber := literal.chars c (hText ▸ mem_cons_self)
  have hNot {d : Char} (hd : isNumberChar d = false) : c ≠ d := ne_of_number hNumber hd
  rw [hText, cons_append] at hRead ⊢
  rw [readValue, if_neg (hNot (by decide)), if_neg (hNot (by decide)), if_neg (hNot (by decide)),
    if_neg (hNot (by decide)), if_neg (hNot (by decide)), if_neg (hNot (by decide)), hRead]

theorem one_le_printItems (items : List Json) : 1 ≤ (printItems false items).length := by
  cases items with
  | nil | cons => simp [printItems]

theorem readValue_array {j : Json} {rest : List Json}
    (h : readItems fuel (printItems true (j :: rest) ++ r) = some (j :: rest, r)) :
    readValue (fuel + 1) ((array (j :: rest)).print ++ r) = some (array (j :: rest), r) := by
  obtain ⟨c, after, hPrint, hSpace, hClose⟩ := print_cons j
  have hItems : printItems true (j :: rest) ++ r = c :: (after ++ (printItems false rest ++ r)) := by
    simp [printItems, hPrint]
  rw [hItems] at h
  rw [print, cons_append, hItems, readValue, if_neg (by decide), if_pos rfl, skipSpace_cons hSpace]
  split
  next hHead =>
    cases hHead
    exact absurd rfl hClose
  · rw [h]
    rfl

theorem readValue_object {m : Text × Json} {rest : List (Text × Json)} (hOrd : KeyMap.Ordered (m :: rest))
    (h : readMembers fuel (printMembers true (m :: rest) ++ r) = some (m :: rest, r)) :
    readValue (fuel + 1) ((object (m :: rest)).print ++ r) = some (object (m :: rest), r) := by
  obtain ⟨k, j⟩ := m
  have hMembers : printMembers true ((k, j) :: rest) ++ r =
      '"' :: (k.flatMap escapeChar ++ '"' :: ':' :: (j.print ++ (printMembers false rest ++ r))) := by
    simp [printMembers, printString]
  rw [hMembers] at h
  rw [print, cons_append, hMembers, readValue, if_neg (by decide), if_neg (by decide), if_pos rfl,
    skipSpace_cons (by decide)]
  split
  next hHead => exact absurd (head_eq_of_cons_eq hHead) (by decide)
  · rw [h]
    simp only [map_some, KeyMap.ofEntries_ordered hOrd]

mutual

theorem readValue_print : ∀ (j : Json) {r : Text} (fuel : Nat), j.isCanonical = true → Ends r →
    j.print.length ≤ fuel → readValue fuel (j.print ++ r) = some (j, r)
  | j, r, 0 => by
    intro _ _ hFuel
    obtain ⟨c, rest, hPrint, _⟩ := print_cons j
    rw [hPrint] at hFuel
    exact absurd hFuel (by simp)
  | null, r, fuel + 1 => fun _ _ _ => rfl
  | bool false, r, fuel + 1 => fun _ _ _ => rfl
  | bool true, r, fuel + 1 => fun _ _ _ => rfl
  | number literal, r, fuel + 1 => fun _ hr _ => readValue_number literal hr fuel
  | string text, r, fuel + 1 => by
    intro _ _ _
    have hText : (string text).print ++ r = '"' :: (text.flatMap escapeChar ++ '"' :: r) := by simp [print, printString]
    rw [hText, readValue, if_pos rfl, readString_printString]
    rfl
  | array [], r, fuel + 1 => fun _ _ _ => rfl
  | object [], r, fuel + 1 => fun _ _ _ => rfl
  | array (j :: rest), r, fuel + 1 => by
    intro hCanon _ hFuel
    apply readValue_array
    rw [print, length_cons] at hFuel
    simp only [printItems, if_true, nil_append, append_assoc] at hFuel ⊢
    exact readItems_print j rest fuel (array_canonical.mp hCanon) (by simpa using hFuel)
  | object ((k, j) :: rest), r, fuel + 1 => by
    intro hCanon _ hFuel
    obtain ⟨hOrd, hMembers⟩ := object_canonical.mp hCanon
    apply readValue_object hOrd
    rw [print, length_cons] at hFuel
    simp only [printMembers, if_true, nil_append, append_assoc, cons_append] at hFuel ⊢
    exact readMembers_print k j rest fuel hMembers (by simpa using hFuel)

theorem readItems_print : ∀ (j : Json) (rest : List Json) {r : Text} (fuel : Nat),
    (∀ i ∈ j :: rest, i.isCanonical = true) → (j.print ++ printItems false rest).length ≤ fuel →
    readItems fuel (j.print ++ (printItems false rest ++ r)) = some (j :: rest, r)
  | j, rest, r, 0 => by
    intro _ hFuel
    have hOne := one_le_printItems rest
    rw [length_append] at hFuel
    omega
  | j, [], r, fuel + 1 => by
    intro hCanon hFuel
    rw [readItems, skipSpace_print,
      readValue_print j fuel (hCanon j mem_cons_self) (ends_printItems [] r) (by simpa [printItems] using hFuel)]
    rfl
  | j, j' :: rest, r, fuel + 1 => by
    intro hCanon hFuel
    have hItems : printItems false (j' :: rest) = ',' :: (j'.print ++ printItems false rest) := by simp [printItems]
    rw [hItems, length_append, length_cons] at hFuel
    have hRest := @readItems_print j' rest r fuel (fun i hi => hCanon i (mem_cons_of_mem _ hi)) (by omega)
    rw [readItems, skipSpace_print,
      readValue_print j fuel (hCanon j mem_cons_self) (ends_printItems (j' :: rest) r) (by omega), hItems,
      cons_append, append_assoc]
    simp only [bind_eq_bind, bind_some, skipSpace_cons (show isSpace ',' = false by decide), hRest, map_some]

theorem readMembers_print : ∀ (k : Text) (j : Json) (rest : List (Text × Json)) {r : Text} (fuel : Nat),
    (∀ m ∈ (k, j) :: rest, m.2.isCanonical = true) →
    (printString k ++ ':' :: (j.print ++ printMembers false rest)).length ≤ fuel →
    readMembers fuel (printString k ++ ':' :: (j.print ++ (printMembers false rest ++ r))) = some ((k, j) :: rest, r)
  | k, j, rest, r, 0 => by
    intro _ hFuel
    simp [printString] at hFuel
  | k, j, [], r, fuel + 1 => by
    intro hCanon hFuel
    rw [length_append, length_cons, length_append] at hFuel
    rw [readMembers, skipSpace_printString, readKey_print, bind_eq_bind, bind_some]
    dsimp only
    rw [skipSpace_print, readValue_print j fuel (hCanon _ mem_cons_self) (ends_printMembers [] r) (by omega)]
    rfl
  | k, j, (k', j') :: rest, r, fuel + 1 => by
    intro hCanon hFuel
    have hMembers : printMembers false ((k', j') :: rest) =
        ',' :: (printString k' ++ ':' :: (j'.print ++ printMembers false rest)) := by
      simp [printMembers]
    rw [hMembers, length_append, length_cons, length_append, length_cons] at hFuel
    have hRest := @readMembers_print k' j' rest r fuel (fun m hm => hCanon m (mem_cons_of_mem _ hm)) (by omega)
    rw [readMembers, skipSpace_printString, readKey_print, bind_eq_bind, bind_some]
    dsimp only
    rw [skipSpace_print, readValue_print j fuel (hCanon _ mem_cons_self) (ends_printMembers _ r) (by omega),
      hMembers, cons_append, append_assoc, cons_append, append_assoc]
    simp only [bind_eq_bind, bind_some, skipSpace_cons (show isSpace ',' = false by decide), hRest, map_some]

end

def encodeLines (items : List Json) : Text := items.flatMap fun j => j.print ++ ['\n']

theorem encodeLines_cons (j : Json) (rest : List Json) : encodeLines (j :: rest) = j.print ++ '\n' :: encodeLines rest := by
  simp [encodeLines]

theorem skipSpace_newline (text : Text) : skipSpace ('\n' :: text) = skipSpace text := by
  rw [skipSpace, dropWhile_cons_of_pos (by decide), skipSpace]

theorem decodeFrom_skip {text text' : Text} (h : skipSpace text = skipSpace text') :
    decodeFrom fuel text = decodeFrom fuel text' := by
  cases fuel with
  | zero => rfl
  | succ fuel => rw [decodeFrom, decodeFrom, h]

theorem decodeFrom_encodeLines (items : List Json) (hItems : ∀ j ∈ items, j.isCanonical = true) (fuel : Nat)
    (hFuel : items.length < fuel) : decodeFrom fuel (encodeLines items) = some items := by
  induction items generalizing fuel with
  | nil =>
    cases fuel with
    | zero => exact absurd hFuel (by simp)
    | succ fuel => rfl
  | cons j rest ih =>
    cases fuel with
    | zero => exact absurd hFuel (by simp)
    | succ fuel =>
      obtain ⟨hHead, hRest⟩ := forall_mem_cons.mp hItems
      have hValue : ∀ fuel, j.print.length ≤ fuel →
          readValue fuel (j.print ++ '\n' :: encodeLines rest) = some (j, '\n' :: encodeLines rest) :=
        fun fuel h => readValue_print j fuel hHead (ends_cons (by decide)) h
      have hDecode : decodeFrom fuel ('\n' :: encodeLines rest) = some rest :=
        (decodeFrom_skip (skipSpace_newline _)).trans (ih hRest fuel (by simpa using hFuel))
      obtain ⟨c, after, hPrint, hSpace, _⟩ := print_cons j
      rw [hPrint, cons_append] at hValue
      rw [encodeLines_cons, hPrint, cons_append, decodeFrom, skipSpace_cons hSpace]
      dsimp only
      rw [hValue _ (by simp), bind_eq_bind, bind_some, hDecode]
      rfl

theorem length_le_encodeLines (items : List Json) : items.length ≤ (encodeLines items).length := by
  induction items with
  | nil => simp
  | cons j rest ih =>
    rw [encodeLines_cons, length_append, length_cons, length_cons]
    omega

theorem decodeAll_encodeLines (h : ∀ j ∈ items, j.isCanonical = true) : decodeAll (encodeLines items) = some items :=
  decodeFrom_encodeLines items h _ (Nat.lt_succ_of_le (length_le_encodeLines items))

end LocalModelWorks.Json
