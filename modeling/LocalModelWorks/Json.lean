import Mathlib.Data.List.Dedup
import Mathlib.Data.List.Sort

/-!
# Canonical JSON

Values, the canonical text of a value, and the fact that the text determines the value: keys
in order, no white space, numbers as they are written, strings with the escapes of Go's
encoder.
-/

namespace LocalModelWorks

open List

namespace Json

abbrev Text := List Char

def isNumberChar (c : Char) : Bool := c.isDigit || c = '-' || c = '+' || c = '.' || c = 'e' || c = 'E'

structure Literal where
  text : Text
  nonempty : text ≠ []
  chars : ∀ c ∈ text, isNumberChar c = true

end Json

/-- A JSON value. An object is a finite map; its members are kept in the order of their keys. -/
inductive Json
  | null
  | bool (b : Bool)
  | number (literal : Json.Literal)
  | string (text : Json.Text)
  | array (items : List Json)
  | object (members : List (Json.Text × Json))

namespace Json

def hex4 (n : Nat) : Text :=
  [Nat.digitChar (n / 4096 % 16), Nat.digitChar (n / 256 % 16), Nat.digitChar (n / 16 % 16), Nat.digitChar (n % 16)]

def isEscaped (c : Char) : Bool := c.toNat < 0x20 || ['<', '>', '&', '\u2028', '\u2029'].contains c

def escapeChar (c : Char) : Text :=
  if c = '"' then ['\\', '"']
  else if c = '\\' then ['\\', '\\']
  else if c = '\x08' then ['\\', 'b']
  else if c = '\x0c' then ['\\', 'f']
  else if c = '\n' then ['\\', 'n']
  else if c = '\r' then ['\\', 'r']
  else if c = '\t' then ['\\', 't']
  else if isEscaped c then '\\' :: 'u' :: hex4 c.toNat
  else [c]

def printString (text : Text) : Text := '"' :: (text.flatMap escapeChar ++ ['"'])

mutual

def print : Json → Text
  | null => "null".toList
  | bool b => if b then "true".toList else "false".toList
  | number literal => literal.text
  | string text => printString text
  | array items => '[' :: printItems true items
  | object members => '{' :: printMembers true members

def printItems (first : Bool) : List Json → Text
  | [] => [']']
  | j :: rest => (if first then [] else [',']) ++ (j.print ++ printItems false rest)

def printMembers (first : Bool) : List (Text × Json) → Text
  | [] => ['}']
  | (k, j) :: rest =>
    (if first then [] else [',']) ++ (printString k ++ ':' :: (j.print ++ printMembers false rest))

end

def hexValue (c : Char) : Nat := if c.isDigit then c.toNat - 48 else c.toNat - 87

def shortEscape (c : Char) : Char :=
  if c = 'b' then '\x08' else if c = 'f' then '\x0c' else if c = 'n' then '\n' else if c = 'r' then '\r'
  else if c = 't' then '\t' else c

def readChar : Text → Option (Char × Text)
  | '\\' :: 'u' :: a :: b :: c :: d :: rest =>
    some (Char.ofNat (4096 * hexValue a + 256 * hexValue b + 16 * hexValue c + hexValue d), rest)
  | '\\' :: c :: rest => some (shortEscape c, rest)
  | c :: rest => if c = '"' then none else some (c, rest)
  | [] => none

theorem hexValue_digitChar : ∀ d < 16, hexValue (Nat.digitChar d) = d := by decide

variable {c : Char} {n : Nat} {r r' : Text} {α : Type}

theorem toNat_lt_of_isEscaped (h : isEscaped c = true) : c.toNat < 65536 := by
  simp only [isEscaped, Bool.or_eq_true, decide_eq_true_eq, contains_iff_mem, mem_cons, not_mem_nil, or_false] at h
  rcases h with h | rfl | rfl | rfl | rfl | rfl
  · omega
  · decide
  · decide
  · decide
  · decide
  · decide

theorem readChar_hex4 (h : n < 65536) (rest : Text) :
    readChar ('\\' :: 'u' :: (hex4 n ++ rest)) = some (Char.ofNat n, rest) := by
  have hDigit : ∀ k, hexValue (Nat.digitChar (k % 16)) = k % 16 := fun k => hexValue_digitChar _ (Nat.mod_lt _ (by decide))
  have hValue : 4096 * (n / 4096 % 16) + 256 * (n / 256 % 16) + 16 * (n / 16 % 16) + n % 16 = n := by omega
  simp only [hex4, cons_append, nil_append, readChar, hDigit, hValue]

theorem readChar_escapeChar (c : Char) (rest : Text) : readChar (escapeChar c ++ rest) = some (c, rest) := by
  unfold escapeChar
  split
  · subst_vars; rfl
  split
  · subst_vars; rfl
  split
  · subst_vars; rfl
  split
  · subst_vars; rfl
  split
  · subst_vars; rfl
  split
  · subst_vars; rfl
  split
  · subst_vars; rfl
  split
  next hEsc => rw [cons_append, cons_append, readChar_hex4 (toNat_lt_of_isEscaped hEsc), Char.ofNat_toNat]
  next hQuote hBackslash _ _ _ _ _ _ =>
    rw [singleton_append, readChar]
    · rw [if_neg hQuote]
    · simp [hBackslash]
    · simp [hBackslash]

def readString : Nat → Text → Option (Text × Text)
  | 0, _ => none
  | fuel + 1, text =>
    match readChar text with
    | some (c, rest) => (readString fuel rest).map fun s => (c :: s.1, s.2)
    | none =>
      match text with
      | '"' :: rest => some ([], rest)
      | _ => none

theorem escapeChar_ne_nil (c : Char) : 1 ≤ (escapeChar c).length := by
  have hRead := readChar_escapeChar c []
  cases hChar : escapeChar c with
  | nil =>
    rw [hChar] at hRead
    cases hRead
  | cons d rest => simp

theorem readString_print (text r : Text) (fuel : Nat) (hFuel : (text.flatMap escapeChar).length < fuel) :
    readString fuel (text.flatMap escapeChar ++ '"' :: r) = some (text, r) := by
  induction text generalizing fuel with
  | nil =>
    cases fuel with
    | zero => exact absurd hFuel (by simp)
    | succ fuel => rfl
  | cons c text ih =>
    cases fuel with
    | zero => exact absurd hFuel (by simp)
    | succ fuel =>
      rw [flatMap_cons, length_append] at hFuel
      have hOne := escapeChar_ne_nil c
      simp only [flatMap_cons, append_assoc, readString, readChar_escapeChar, ih fuel (by omega), Option.map_some]

theorem printString_inj {s t : Text} (h : printString s ++ r = printString t ++ r') : s = t ∧ r = r' := by
  have hBody : s.flatMap escapeChar ++ '"' :: r = t.flatMap escapeChar ++ '"' :: r' := by
    simpa [printString] using h
  have hRead := readString_print s r (_ + _ + 1) (Nat.lt_succ_of_le (Nat.le_add_right _ (t.flatMap escapeChar).length))
  rw [hBody, readString_print t r' _ (Nat.lt_succ_of_le (Nat.le_add_left _ _))] at hRead
  cases hRead
  exact ⟨rfl, rfl⟩

def Ends (r : Text) : Prop := ∀ c, r.head? = some c → isNumberChar c = false

theorem ends_nil : Ends [] := fun _ h => nomatch h

theorem ends_cons (h : isNumberChar c = false) : Ends (c :: r) := by
  rintro _ ⟨⟩
  exact h

theorem ends_printItems (xs : List Json) (r : Text) : Ends (printItems false xs ++ r) := by
  cases xs with
  | nil | cons => exact ends_cons (by decide)

theorem ends_printMembers (ms : List (Text × Json)) (r : Text) : Ends (printMembers false ms ++ r) := by
  cases ms with
  | nil | cons => exact ends_cons (by decide)

theorem takeWhile_number {a : Text} (ha : ∀ c ∈ a, isNumberChar c = true) (hr : Ends r) :
    (a ++ r).takeWhile isNumberChar = a := by
  rw [takeWhile_append_of_pos ha]
  cases r with
  | nil => simp
  | cons c rest => simp [hr c rfl]

theorem literal_inj {a b : Literal} (hr : Ends r) (hr' : Ends r') (h : a.text ++ r = b.text ++ r') :
    a = b ∧ r = r' := by
  have hText : a.text = b.text := by
    rw [← takeWhile_number a.chars hr, h, takeWhile_number b.chars hr']
  refine ⟨?_, ?_⟩
  · cases a
    cases hText
    rfl
  · rw [hText] at h
    exact append_cancel_left h

def shape : Json → Nat
  | null => 0
  | bool _ => 1
  | number _ => 2
  | string _ => 3
  | array _ => 4
  | object _ => 5

def shapeOf (c : Char) : Nat :=
  if c = 'n' then 0 else if c = 't' ∨ c = 'f' then 1 else if c = '"' then 3 else if c = '[' then 4
  else if c = '{' then 5 else 2

theorem ne_of_number {d : Char} (h : isNumberChar c = true) (hd : isNumberChar d = false) : c ≠ d := by
  rintro rfl
  rw [hd] at h
  cases h

theorem shapeOf_number (h : isNumberChar c = true) : shapeOf c = 2 := by
  have hNot {d : Char} (hd : isNumberChar d = false) : c ≠ d := ne_of_number h hd
  rw [shapeOf, if_neg (hNot (by decide)), if_neg (not_or.mpr ⟨hNot (by decide), hNot (by decide)⟩), if_neg (hNot (by decide)),
    if_neg (hNot (by decide)), if_neg (hNot (by decide))]

def starts (c : Char) : Bool := isNumberChar c || ['n', 't', 'f', '"', '[', '{'].contains c

theorem head_print (j : Json) : ∃ c rest, j.print = c :: rest ∧ shapeOf c = j.shape ∧ starts c = true := by
  cases j with
  | null | string | array | object => exact ⟨_, _, rfl, rfl, by decide⟩
  | bool b =>
    cases b with
    | false | true => exact ⟨_, _, rfl, by decide, by decide⟩
  | number literal =>
    obtain ⟨c, rest, hText⟩ := exists_cons_of_ne_nil literal.nonempty
    have hNumber := literal.chars c (hText ▸ mem_cons_self)
    exact ⟨c, rest, hText, shapeOf_number hNumber, by simp [starts, hNumber]⟩

theorem shape_eq {j j' : Json} (h : j.print ++ r = j'.print ++ r') : j.shape = j'.shape := by
  obtain ⟨c, rest, hPrint, hShape, -⟩ := head_print j
  obtain ⟨c', rest', hPrint', hShape', -⟩ := head_print j'
  rw [hPrint, hPrint', cons_append, cons_append, List.cons.injEq] at h
  rw [← hShape, ← hShape', h.1]

theorem close_ne_print (j : Json) (s r : Text) : ']' :: s ≠ j.print ++ r := by
  obtain ⟨c, rest, hPrint, -, hStarts⟩ := head_print j
  rw [hPrint]
  rintro ⟨⟩
  exact absurd hStarts (by decide)

theorem printItems_cons_ne_nil (first : Bool) (j : Json) (rest : List Json) (r r' : Text) :
    printItems first (j :: rest) ++ r ≠ printItems first [] ++ r' := by
  intro h
  cases first with
  | false => cases h
  | true =>
    simp only [printItems, append_assoc] at h
    exact close_ne_print j _ _ h.symm

theorem printMembers_cons_ne_nil (first : Bool) (m : Text × Json) (rest : List (Text × Json)) (r r' : Text) :
    printMembers first (m :: rest) ++ r ≠ printMembers first [] ++ r' := by
  intro h
  cases first with
  | false | true => cases h

mutual

theorem print_append_inj : ∀ (j j' : Json) {r r' : Text}, Ends r → Ends r' → j.print ++ r = j'.print ++ r' →
    j = j' ∧ r = r' := by
  intro j j' r r' hr hr' h
  have hShape := shape_eq h
  cases j <;> cases j' <;> first | cases hShape; done | skip
  case null => exact ⟨rfl, append_cancel_left h⟩
  case bool b b' =>
    cases b with
    | false =>
      cases b' with
      | false => exact ⟨rfl, append_cancel_left h⟩
      | true => cases h
    | true =>
      cases b' with
      | false => cases h
      | true => exact ⟨rfl, append_cancel_left h⟩
  case number literal literal' =>
    obtain ⟨rfl, hRest⟩ := literal_inj hr hr' h
    exact ⟨rfl, hRest⟩
  case string text text' =>
    obtain ⟨rfl, hRest⟩ := printString_inj h
    exact ⟨rfl, hRest⟩
  case array items items' =>
    obtain ⟨rfl, hRest⟩ := printItems_append_inj true items items' (tail_eq_of_cons_eq h)
    exact ⟨rfl, hRest⟩
  case object members members' =>
    obtain ⟨rfl, hRest⟩ := printMembers_append_inj true members members' (tail_eq_of_cons_eq h)
    exact ⟨rfl, hRest⟩

theorem printItems_append_inj (first : Bool) : ∀ (xs ys : List Json) {r r' : Text},
    printItems first xs ++ r = printItems first ys ++ r' → xs = ys ∧ r = r'
  | [], [], r, r' => fun h => ⟨rfl, append_cancel_left h⟩
  | [], j :: rest, r, r' => fun h => absurd h.symm (printItems_cons_ne_nil first j rest r' r)
  | j :: rest, [], r, r' => fun h => absurd h (printItems_cons_ne_nil first j rest r r')
  | j :: rest, j' :: rest', r, r' => fun h => by
    simp only [printItems, append_assoc, append_cancel_left_eq] at h
    obtain ⟨rfl, hRest⟩ := print_append_inj j j' (ends_printItems rest r) (ends_printItems rest' r') h
    obtain ⟨rfl, hEnd⟩ := printItems_append_inj false rest rest' hRest
    exact ⟨rfl, hEnd⟩

theorem printMembers_append_inj (first : Bool) : ∀ (ms ns : List (Text × Json)) {r r' : Text},
    printMembers first ms ++ r = printMembers first ns ++ r' → ms = ns ∧ r = r'
  | [], [], r, r' => fun h => ⟨rfl, append_cancel_left h⟩
  | [], (k, j) :: rest, r, r' => fun h => absurd h.symm (printMembers_cons_ne_nil first (k, j) rest r' r)
  | (k, j) :: rest, [], r, r' => fun h => absurd h (printMembers_cons_ne_nil first (k, j) rest r r')
  | (k, j) :: rest, (k', j') :: rest', r, r' => fun h => by
    simp only [printMembers, append_assoc, append_cancel_left_eq] at h
    obtain ⟨rfl, hMem⟩ := printString_inj h
    rw [cons_append, cons_append, append_assoc, append_assoc] at hMem
    obtain ⟨rfl, hRest⟩ := print_append_inj j j' (ends_printMembers rest r) (ends_printMembers rest' r')
      (tail_eq_of_cons_eq hMem)
    obtain ⟨rfl, hEnd⟩ := printMembers_append_inj false rest rest' hRest
    exact ⟨rfl, hEnd⟩

end

theorem print_injective : Function.Injective print := by
  intro j j' h
  have hAppend : j.print ++ [] = j'.print ++ [] := by rw [h]
  exact (print_append_inj j j' ends_nil ends_nil hAppend).1

def ofFields (fields : List (Text × Json)) : Json := object (fields.insertionSort fun a b => !(b.1 < a.1))

theorem ofFields_perm {fs gs : List (Text × Json)} (h : ofFields fs = ofFields gs) : fs.Perm gs := by
  have hSort := object.inj h
  exact (perm_insertionSort _ fs).symm.trans (hSort ▸ perm_insertionSort _ gs)

variable (fields : List (Text × Option Json))

def present : List (Text × Json) :=
  fields.filterMap fun field => field.2.map fun j => (field.1, j)

def record : Json := ofFields (present fields)

variable {fields : List (Text × Option Json)}

theorem key_of_mem_present {member : Text × Json} (h : member ∈ present fields) : member.1 ∈ fields.map Prod.fst := by
  obtain ⟨field, hField, hMem⟩ := mem_filterMap.mp h
  obtain ⟨j, _, rfl⟩ := Option.map_eq_some_iff.mp hMem
  exact mem_map.mpr ⟨field, hField, rfl⟩

theorem filter_present {k : Text} {v : Option Json} (hKey : k ∉ fields.map Prod.fst) :
    (present ((k, v) :: fields)).filter (fun m => m.1 = k) = (v.map fun j => (k, j)).toList ∧
    (present ((k, v) :: fields)).filter (fun m => ¬m.1 = k) = present fields := by
  have hOther : ∀ m ∈ present fields, m.1 ≠ k := fun m hm hSame => hKey (hSame ▸ key_of_mem_present hm)
  have hNone : (present fields).filter (fun m => m.1 = k) = [] := by
    rw [filter_eq_nil_iff]
    intro m hm
    simpa using hOther m hm
  have hAll : (present fields).filter (fun m => ¬m.1 = k) = present fields := by
    rw [filter_eq_self]
    intro m hm
    simpa using hOther m hm
  cases v with
  | none => exact ⟨hNone, hAll⟩
  | some j =>
    have hCons : present ((k, some j) :: fields) = (k, j) :: present fields := rfl
    rw [hCons]
    constructor
    · rw [filter_cons_of_pos (by simp), hNone]
      rfl
    · rw [filter_cons_of_neg (by simp), hAll]

variable {fs gs : List (Text × Option Json)}

theorem present_inj (hKeys : fs.map Prod.fst = gs.map Prod.fst)
    (hNodup : (fs.map Prod.fst).Nodup) (h : (present fs).Perm (present gs)) : fs = gs := by
  induction fs generalizing gs with
  | nil =>
    rw [map_nil, eq_comm, map_eq_nil_iff] at hKeys
    exact hKeys.symm
  | cons f fs ih =>
    cases gs with
    | nil => cases hKeys
    | cons g gs =>
      obtain ⟨k, v⟩ := f
      obtain ⟨k', v'⟩ := g
      obtain ⟨rfl, hRest⟩ := List.cons.inj hKeys
      obtain ⟨hFresh, hNodup⟩ := nodup_cons.mp hNodup
      obtain ⟨hOwn, hOthers⟩ := filter_present hFresh
      obtain ⟨hOwn', hOthers'⟩ := filter_present (hRest ▸ hFresh)
      have hValue : (v.map fun j => (k, j)).toList.Perm (v'.map fun j => (k, j)).toList := by
        rw [← hOwn, ← hOwn']
        exact h.filter _
      have hTail : (present fs).Perm (present gs) := by
        rw [← hOthers, ← hOthers']
        exact h.filter _
      have hSame : v = v' := by
        cases v <;> cases v' <;> simp_all
      rw [hSame, ih hRest hNodup hTail]

def distinct : List Text → Bool
  | [] => true
  | k :: rest => !rest.contains k && distinct rest

theorem nodup_of_distinct {keys : List Text} (h : distinct keys = true) : keys.Nodup := by
  induction keys with
  | nil => exact nodup_nil
  | cons k rest ih =>
    rw [distinct, Bool.and_eq_true, Bool.not_eq_true', ← Bool.not_eq_true, contains_iff_mem] at h
    exact nodup_cons.mpr ⟨h.1, ih h.2⟩

theorem record_inj (h : record fs = record gs)
    (hKeys : fs.map Prod.fst = gs.map Prod.fst) (hApart : distinct (fs.map Prod.fst) = true) : fs = gs :=
  present_inj hKeys (nodup_of_distinct hApart) (ofFields_perm h)

theorem isDigit_of_mem_repr (h : c ∈ n.repr.toList) : c.isDigit = true := by
  rw [Nat.repr_eq_ofList_toDigits, String.toList_ofList] at h
  exact Nat.isDigit_of_mem_toDigits (by decide) (by decide) h

theorem repr_ne_nil (n : Nat) : n.repr.toList ≠ [] := by
  rw [Nat.repr_eq_ofList_toDigits, String.toList_ofList]
  exact Nat.toDigits_ne_nil

theorem repr_toList_injective {m : Nat} (h : m.repr.toList = n.repr.toList) : m = n := by
  have hValue := congrArg (fun digits => Nat.ofDigitChars 10 digits 0) h
  simpa [Nat.ofDigitChars_toDigits] using hValue

theorem repr_chars (n : Nat) : ∀ c ∈ n.repr.toList, isNumberChar c = true := fun c hc => by
  simp [isNumberChar, isDigit_of_mem_repr hc]

def intLiteral : Int → Literal
  | .ofNat n => ⟨n.repr.toList, repr_ne_nil n, repr_chars n⟩
  | .negSucc n => ⟨'-' :: n.succ.repr.toList, cons_ne_nil _ _, forall_mem_cons.mpr ⟨by decide, repr_chars n.succ⟩⟩

theorem minus_ne_repr {t : Text} : '-' :: t ≠ n.repr.toList := by
  intro h
  have hDigit := isDigit_of_mem_repr (h ▸ mem_cons_self)
  exact absurd hDigit (by decide)

def decimal (n : Int) : Text := (intLiteral n).text

theorem decimal_injective : Function.Injective decimal := by
  intro a b hText
  cases a with
  | ofNat m =>
    cases b with
    | ofNat n => rw [repr_toList_injective hText]
    | negSucc n => exact absurd hText.symm minus_ne_repr
  | negSucc m =>
    cases b with
    | ofNat n => exact absurd hText minus_ne_repr
    | negSucc n => rw [Nat.succ.inj (repr_toList_injective (tail_eq_of_cons_eq hText))]

def ofInt (n : Int) : Json := number (intLiteral n)

theorem ofInt_injective : Function.Injective ofInt := fun _ _ h =>
  decimal_injective (congrArg Literal.text (number.inj h))

def ofList {α : Type} (f : α → Json) (xs : List α) : Json := array (xs.map f)

def Keeps {α β : Type} (f : α → β) (R : α → α → Prop) : Prop := ∀ ⦃a b⦄, f a = f b → R a b

variable {f : α → Json} {R : α → α → Prop}

theorem keeps_ofList (hf : Keeps f R) : Keeps (ofList f) (List.Forall₂ R) := by
  intro xs ys h
  have hMap : xs.map f = ys.map f := array.inj h
  rw [← forall₂_eq_eq_eq, forall₂_map_left_iff, forall₂_map_right_iff] at hMap
  exact hMap.imp fun _ _ hSame => hf hSame

theorem ofList_injective (hf : Function.Injective f) : Function.Injective (ofList f) :=
  fun _ _ h => forall₂_eq_eq_eq ▸ keeps_ofList hf h

def omitEmpty {α : Type} [DecidableEq α] (empty : α) (f : α → Json) (a : α) : Option Json :=
  if a = empty then none else some (f a)

theorem keeps_omitEmpty [DecidableEq α] {empty : α} (hEmpty : R empty empty)
    (hf : Keeps f R) : Keeps (omitEmpty empty f) R := by
  intro a b h
  unfold omitEmpty at h
  split at h
  · split at h
    · subst_vars
      exact hEmpty
    · cases h
  split at h
  · cases h
  · exact hf (Option.some.inj h)

theorem omitEmpty_injective [DecidableEq α] {empty : α} (hf : Function.Injective f) :
    Function.Injective (omitEmpty empty f) := keeps_omitEmpty rfl hf

def ofMap {α : Type} (f : α → Json) (entries : List (Text × α)) : Json :=
  ofFields ((entries.map Prod.fst).dedup.filterMap fun k => (entries.lookup k).map fun a => (k, f a))

theorem mem_ofMap {entries : List (Text × α)} {k : Text} {j : Json} :
    (k, j) ∈ (entries.map Prod.fst).dedup.filterMap (fun k => (entries.lookup k).map fun a => (k, f a)) ↔
    (entries.lookup k).map f = some j := by
  simp only [mem_filterMap, Option.map_eq_some_iff, Prod.mk.injEq]
  constructor
  · rintro ⟨_, _, a, hGet, rfl, rfl⟩
    exact ⟨a, hGet, rfl⟩
  rintro ⟨a, hGet, rfl⟩
  obtain ⟨before, after, hEntries, _⟩ := lookup_eq_some_iff.mp hGet
  refine ⟨k, ?_, a, hGet, rfl, rfl⟩
  rw [hEntries]
  simp

theorem keeps_ofMap (f : α → Json) : Keeps (ofMap f) fun xs ys => ∀ k, (xs.lookup k).map f = (ys.lookup k).map f := by
  intro xs ys h k
  have hPerm := ofFields_perm h
  have hMem : ∀ j, (xs.lookup k).map f = some j ↔ (ys.lookup k).map f = some j := fun j => by
    rw [← mem_ofMap, ← mem_ofMap]
    exact hPerm.mem_iff
  exact Option.ext hMem

end Json

end LocalModelWorks
