import Mathlib.Data.List.Basic

/-!
# The fields of an SSH configuration line

`configFields` against the reading of OpenSSH: a keyword, blanks or one equals sign, and the
arguments, in which quotes and backslashes are resolved and a `#` at the start of a word
ends the line.
-/

namespace LocalModelWorks.WorkerSsh

open List

/-- The bytes of a text, each as the character of that number. -/
abbrev Text := List Char

variable (c : Char)

def isBlank : Bool := c = ' ' || c = '\t' || c = '\r'

def isQuote : Bool := c = '\'' || c = '"'

def escapable (quote : Option Char) (c : Char) : Bool := isQuote c || c = '\\' || (quote.isNone && c = ' ')

structure Scan where
  fields : List Text
  word : Text
  quote : Option Char
  escaped : Bool
  started : Bool
  equals : Bool
  deriving DecidableEq

def Scan.start : Scan := ⟨[], [], none, false, false, false⟩

variable (s : Scan)

def Scan.flush : Scan :=
  if s.started then { s with fields := s.fields ++ [s.word], word := [], started := false } else s

def Scan.add (c : Char) : Scan := { s with started := true, word := s.word ++ [c] }

def Scan.separates (c : Char) : Bool :=
  c = '=' && !s.equals && (s.fields.length = 0 || (s.fields.length = 1 && !s.started))

def scanLine (s : Scan) : Text → Scan
  | [] => s
  | c :: rest =>
    if s.escaped then scanLine { s with word := s.word ++ [c], escaped := false } rest
    else if c = '\\' then
      if rest.head?.any (escapable s.quote) then scanLine { s with started := true, escaped := true } rest
      else scanLine (s.add c) rest
    else
      match s.quote with
      | some q =>
        if c = q then scanLine { s with quote := none } rest else scanLine { s with word := s.word ++ [c] } rest
      | none =>
        if isQuote c then scanLine { s with quote := some c, started := true } rest
        else if c = '#' && !s.started then s
        else if s.separates c then scanLine (Scan.flush { s with equals := true }) rest
        else if isBlank c then scanLine s.flush rest
        else scanLine (s.add c) rest

def Scan.finish : Option (List Text) := if s.quote.isSome || s.escaped then none else some s.flush.fields

variable (line : Text)

def configFields : Option (List Text) := (scanLine .start line).finish

def argvSplit : Option (Option Char × Text) → Text → Option (List Text)
  | none, [] => some []
  | some (none, word), [] => some [word]
  | some (some _, _), [] => none
  | inside, '\\' :: d :: rest =>
    if escapable (inside.bind Prod.fst) d then
      argvSplit (some (inside.bind Prod.fst, (inside.elim [] Prod.snd) ++ [d])) rest
    else argvSplit (some (inside.bind Prod.fst, (inside.elim [] Prod.snd) ++ ['\\'])) (d :: rest)
  | none, c :: rest =>
    if isBlank c then argvSplit none rest
    else if c = '#' then some []
    else if isQuote c then argvSplit (some (some c, [])) rest
    else argvSplit (some (none, [c])) rest
  | some (none, word), c :: rest =>
    if isBlank c then (argvSplit none rest).map (word :: ·)
    else if isQuote c then argvSplit (some (some c, word)) rest
    else argvSplit (some (none, word ++ [c])) rest
  | some (some q, word), c :: rest =>
    if c = q then argvSplit (some (none, word)) rest else argvSplit (some (some q, word ++ [c])) rest

variable (text : Text)

def skipBlanks : Text := text.dropWhile isBlank

def skipSeparator : Text :=
  match skipBlanks text with
  | '=' :: rest => skipBlanks rest
  | rest => rest

def endsKeyword : Bool := isBlank c || c = '='

def readLine : Option (Text × List Text) :=
  let body := skipBlanks line
  (argvSplit none (skipSeparator (body.dropWhile (!endsKeyword ·)))).map fun args =>
    (body.takeWhile (!endsKeyword ·), args)

def Scan.place : Option (Option Char × Text) := if s.started then some (s.quote, s.word) else none

structure Scan.Ready (s : Scan) (text : Text) : Prop where
  keyword : s.fields ≠ []
  escaped : s.escaped = false
  mark : ∀ q, s.quote = some q → isQuote q = true
  between : s.started = false → s.quote = none ∧ s.word = []
  equals : s.started = true ∨ s.equals = true ∨ 2 ≤ s.fields.length ∨ ∃ c rest, text = c :: rest ∧ c ≠ '=' ∧ isBlank c = false

variable {s : Scan} {rest text : Text} {c : Char}

theorem place_started {quote : Option Char} {word : Text} (h : s.place = some (quote, word)) :
    s.started = true ∧ s.quote = quote ∧ s.word = word := by
  unfold Scan.place at h
  split at h
  next hStarted =>
    cases h
    exact ⟨hStarted, rfl, rfl⟩
  · cases h

theorem place_between (h : s.place = none) : s.started = false := by
  unfold Scan.place at h
  split at h
  · cases h
  next hStarted => exact Bool.eq_false_iff.mpr hStarted

theorem separates_of_ready (h : s.Ready (c :: rest)) : s.separates c = false := by
  have hLen : 0 < s.fields.length := length_pos_iff.mpr h.keyword
  unfold Scan.separates
  rcases h.equals with hStarted | hEquals | hTwo | ⟨d, rest', hText, hEquals, _⟩
  · simp [hStarted, Nat.ne_of_gt hLen]
  · simp [hEquals]
  · have hOne : s.fields.length ≠ 1 := by omega
    simp [hOne, Nat.ne_of_gt hLen]
  · cases hText
    simp [hEquals]

theorem ready_inside (hWord : s.fields ≠ []) (hEsc : s.escaped = false)
    (hMark : ∀ q, s.quote = some q → isQuote q = true) (hStarted : s.started = true) : s.Ready text :=
  ⟨hWord, hEsc, hMark, fun hNot => absurd (hStarted.symm.trans hNot) (by decide), .inl hStarted⟩

theorem scan_other (hEsc : s.escaped = false) (hQuote : s.quote = none) (hLast : c = '\\' → rest = [])
    (hMark : isQuote c = false) (hComment : c = '#' → s.started = true) (hSeparates : s.separates c = false)
    (hBlank : isBlank c = false) :
    scanLine s (c :: rest) = scanLine (s.add c) rest := by
  by_cases hSlash : c = '\\'
  · subst hSlash
    rw [hLast rfl]
    simp [scanLine, hEsc]
  have hHash : (c = '#' && !s.started) = false := by
    by_cases h : c = '#'
    · simp [hComment h]
    · simp [h]
  simp [scanLine, hEsc, hSlash, hQuote, hMark, hHash, hSeparates, hBlank]

theorem scan_escape {d : Char} (hEsc : s.escaped = false) (hTakes : escapable s.quote d = true) :
    scanLine s ('\\' :: d :: rest) = scanLine (s.add d) rest := by
  simp [scanLine, hEsc, hTakes, Scan.add]

theorem scan_backslash {d : Char} (hEsc : s.escaped = false) (hTakes : escapable s.quote d = false) :
    scanLine s ('\\' :: d :: rest) = scanLine (s.add '\\') (d :: rest) := by
  rw [scanLine]
  simp [hEsc, hTakes]

theorem quote_not_backslash (h : isQuote c = true) : c ≠ '\\' := by
  rintro rfl
  cases h

theorem blank_not_special (h : isBlank c = true) : c ≠ '\\' ∧ isQuote c = false ∧ c ≠ '#' ∧ c ≠ '=' := by
  simp only [isBlank, Bool.or_eq_true, decide_eq_true_eq] at h
  rcases h with (rfl | rfl) | rfl <;> decide

theorem scan_quote (hEsc : s.escaped = false) (hQuote : s.quote = none) (h : isQuote c = true) :
    scanLine s (c :: rest) = scanLine { s with quote := some c, started := true } rest := by
  simp [scanLine, hEsc, quote_not_backslash h, hQuote, h]

theorem scan_blank (hEsc : s.escaped = false) (hQuote : s.quote = none) (h : isBlank c = true) :
    scanLine s (c :: rest) = scanLine s.flush rest := by
  obtain ⟨hSlash, hMark, hHash, hEquals⟩ := blank_not_special h
  simp [scanLine, hEsc, hSlash, hQuote, hMark, hHash, Scan.separates, hEquals, h]

theorem place_quote (h : s.Ready text) : s.place.bind Prod.fst = s.quote ∧ s.place.elim [] Prod.snd = s.word := by
  cases hStarted : s.started with
  | true => simp [Scan.place, hStarted]
  | false => simp [Scan.place, hStarted, h.between hStarted]

variable {p : Option (Option Char × Text)}

theorem place_add (hPlace : s.place = p) (h : s.Ready text) (c : Char) :
    (s.add c).place = some (p.bind Prod.fst, p.elim [] Prod.snd ++ [c]) := by
  rw [← hPlace, (place_quote h).1, (place_quote h).2]
  rfl

theorem ready_add (h : s.Ready text) (c : Char) : (s.add c).Ready rest := ready_inside h.keyword h.escaped h.mark rfl

theorem ready_flush (h : s.Ready text) (hQuote : s.quote = none) (hStarted : s.started = true) :
    s.flush.Ready rest := by
  have hLen : 0 < s.fields.length := length_pos_iff.mpr h.keyword
  have hFlush : s.flush = { s with fields := s.fields ++ [s.word], word := [], started := false } := if_pos hStarted
  rw [hFlush]
  refine ⟨append_ne_nil_of_right_ne_nil _ (cons_ne_nil _ _), h.escaped, h.mark, fun _ => ⟨hQuote, rfl⟩, ?_⟩
  rw [length_append, length_singleton]
  omega

theorem ready_quote (h : s.Ready text) (hMark : isQuote c = true) :
    Scan.Ready { s with quote := some c, started := true } rest :=
  ready_inside h.keyword h.escaped (fun _ hq => Option.some.inj hq ▸ hMark) rfl

theorem nil_of_last (h : ∀ d rest', c = '\\' → rest = d :: rest' → False) (hSlash : c = '\\') : rest = [] := by
  cases rest with
  | nil => rfl
  | cons d rest => exact absurd rfl (h d rest hSlash)

theorem scan_arguments (hPlace : s.place = p) (hReady : s.Ready text) :
    (scanLine s text).finish = (argvSplit p text).map (s.fields ++ ·) := by
  fun_induction argvSplit p text generalizing s with
  | case1 =>
    have hStarted := place_between hPlace
    simp [scanLine, Scan.finish, Scan.flush, hStarted, hReady.escaped, hReady.between hStarted]
  | case2 word =>
    obtain ⟨hStarted, hQuote, hWord⟩ := place_started hPlace
    simp [scanLine, Scan.finish, Scan.flush, hStarted, hQuote, hWord, hReady.escaped]
  | case3 q word =>
    obtain ⟨_, hQuote, _⟩ := place_started hPlace
    simp [scanLine, Scan.finish, hQuote]
  | case4 inside d rest hTakes ih =>
    rw [← hPlace, (place_quote hReady).1] at hTakes
    rw [scan_escape hReady.escaped hTakes]
    exact ih (place_add hPlace hReady d) (ready_add hReady d)
  | case5 inside d rest hTakes ih =>
    rw [← hPlace, (place_quote hReady).1, Bool.not_eq_true] at hTakes
    rw [scan_backslash hReady.escaped hTakes]
    exact ih (place_add hPlace hReady _) (ready_add hReady _)
  | case6 c rest _ hBlank ih =>
    have hStarted := place_between hPlace
    have hFlush : s.flush = s := if_neg (by simp [hStarted])
    rw [scan_blank hReady.escaped (hReady.between hStarted).1 hBlank, hFlush]
    refine ih hPlace { hReady with equals := hReady.equals.imp_right (Or.imp_right (Or.imp_right ?_)) }
    rintro ⟨d, rest', hText, _, hNot⟩
    cases hText
    exact absurd (hBlank.symm.trans hNot) (by decide)
  | case7 rest _ _ =>
    have hStarted := place_between hPlace
    obtain ⟨hQuote, hWord⟩ := hReady.between hStarted
    simp [scanLine, hReady.escaped, hQuote, isQuote, hStarted, Scan.finish, Scan.flush]
  | case8 c rest _ _ _ hMark ih =>
    obtain ⟨hQuote, hWord⟩ := hReady.between (place_between hPlace)
    rw [scan_quote hReady.escaped hQuote hMark]
    exact ih (by simp [Scan.place, hWord]) (ready_quote hReady hMark)
  | case9 c rest hNotEscape hBlank hComment hMark ih =>
    obtain ⟨hQuote, hWord⟩ := hReady.between (place_between hPlace)
    rw [scan_other hReady.escaped hQuote (nil_of_last hNotEscape) (by simpa using hMark) (fun h => absurd h hComment)
      (separates_of_ready hReady) (by simpa using hBlank)]
    exact ih (place_add hPlace hReady c) (ready_add hReady c)
  | case10 word c rest _ hBlank ih =>
    obtain ⟨hStarted, hQuote, hWord⟩ := place_started hPlace
    have hFlush : s.flush = { s with fields := s.fields ++ [s.word], word := [], started := false } := if_pos hStarted
    have hFields : s.flush.fields = s.fields ++ [word] := by rw [hFlush, ← hWord]
    have hBetween : s.flush.place = none := by rw [hFlush]; rfl
    rw [scan_blank hReady.escaped hQuote hBlank, ih hBetween (ready_flush hReady hQuote hStarted), Option.map_map, hFields]
    congr 1
    funext words
    simp
  | case11 word c rest _ _ hMark ih =>
    obtain ⟨hStarted, hQuote, hWord⟩ := place_started hPlace
    rw [scan_quote hReady.escaped hQuote hMark]
    exact ih (by simp [Scan.place, hWord]) (ready_quote hReady hMark)
  | case12 word c rest hNotEscape hBlank hMark ih =>
    obtain ⟨hStarted, hQuote, hWord⟩ := place_started hPlace
    rw [scan_other hReady.escaped hQuote (nil_of_last hNotEscape) (by simpa using hMark) (fun _ => hStarted)
      (separates_of_ready hReady) (by simpa using hBlank)]
    exact ih (place_add hPlace hReady c) (ready_add hReady c)
  | case13 word q rest _ ih =>
    obtain ⟨hStarted, hQuote, hWord⟩ := place_started hPlace
    have hSlash := quote_not_backslash (hReady.mark q hQuote)
    have hScan : scanLine s (q :: rest) = scanLine { s with quote := none } rest := by
      simp [scanLine, hReady.escaped, hSlash, hQuote]
    rw [hScan]
    refine ih ?_ (ready_inside hReady.keyword hReady.escaped (fun _ hq => absurd hq (by simp)) hStarted)
    simp [Scan.place, hStarted, hWord]
  | case14 word q c rest hNotEscape hOther ih =>
    obtain ⟨hStarted, hQuote, hWord⟩ := place_started hPlace
    have hScan : scanLine s (c :: rest) = scanLine (s.add c) rest := by
      by_cases hSlash : c = '\\'
      · rw [nil_of_last hNotEscape hSlash]
        simp [scanLine, hReady.escaped, hSlash]
      · simp [scanLine, hReady.escaped, hSlash, hQuote, hOther, Scan.add, hStarted]
    rw [hScan]
    exact ih (place_add hPlace hReady c) (ready_add hReady c)

def isPlain (c : Char) : Bool := !(isBlank c || isQuote c || c = '\\' || c = '#' || c = '=')

theorem head_dropWhile {p : Char → Bool} (h : text.dropWhile p = c :: rest) : p c = false := by
  have hNot := head?_dropWhile_not p text
  rw [h] at hNot
  exact hNot

theorem scan_skipBlanks (hEsc : s.escaped = false) (hQuote : s.quote = none) (hStarted : s.started = false)
    (text : Text) : scanLine s text = scanLine s (skipBlanks text) := by
  have hFlush : s.flush = s := if_neg (by simp [hStarted])
  induction text with
  | nil => rfl
  | cons c rest ih =>
    cases hBlank : isBlank c with
    | true =>
      rw [scan_blank hEsc hQuote hBlank, hFlush, ih]
      simp [skipBlanks, hBlank]
    | false => simp [skipBlanks, hBlank]

theorem argvSplit_blank (h : isBlank c = true) (rest : Text) : argvSplit none (c :: rest) = argvSplit none rest := by
  simp only [isBlank, Bool.or_eq_true, decide_eq_true_eq] at h
  rcases h with (rfl | rfl) | rfl <;> rfl

theorem argvSplit_skipBlanks (text : Text) : argvSplit none (skipBlanks text) = argvSplit none text := by
  induction text with
  | nil => rfl
  | cons c rest ih =>
    cases hBlank : isBlank c with
    | true =>
      rw [argvSplit_blank hBlank, ← ih]
      simp [skipBlanks, hBlank]
    | false => simp [skipBlanks, hBlank]

theorem scan_keyword {keyword : Text} (hPlain : keyword.all isPlain = true) (hEsc : s.escaped = false)
    (hQuote : s.quote = none) :
    scanLine s (keyword ++ rest) =
      scanLine { s with word := s.word ++ keyword, started := s.started || !keyword.isEmpty } rest := by
  induction keyword generalizing s with
  | nil => simp
  | cons c keyword ih =>
    rw [all_cons, Bool.and_eq_true] at hPlain
    obtain ⟨hHead, hTail⟩ := hPlain
    simp only [isPlain, Bool.not_eq_true', Bool.or_eq_false_iff, decide_eq_false_iff_not] at hHead
    obtain ⟨⟨⟨⟨hBlank, hMark⟩, hSlash⟩, hHash⟩, hEquals⟩ := hHead
    rw [cons_append, scan_other hEsc hQuote (fun h => absurd h hSlash) hMark (fun h => absurd h hHash)
      (by simp [Scan.separates, hEquals]) hBlank, @ih (s.add c) hTail hEsc hQuote]
    simp [Scan.add]

variable (keyword : Text)

def Scan.afterKeyword (equals : Bool) : Scan := ⟨[keyword], [], none, false, false, equals⟩

theorem scan_separator {after : Text} (h : ∀ c ∈ after.head?, endsKeyword c = true) :
    (scanLine ⟨[], keyword, none, false, true, false⟩ after).finish =
      (argvSplit none (skipSeparator after)).map (keyword :: ·) := by
  have hEquals : ∀ rest, (scanLine (.afterKeyword keyword true) rest).finish =
      (argvSplit none (skipBlanks rest)).map (keyword :: ·) := by
    intro rest
    rw [argvSplit_skipBlanks]
    exact scan_arguments rfl ⟨cons_ne_nil _ _, rfl, fun _ hq => absurd hq (by simp [Scan.afterKeyword]),
      fun _ => ⟨rfl, rfl⟩, .inr (.inl rfl)⟩
  cases after with
  | nil => rfl
  | cons c rest =>
    have hEnds := h c rfl
    cases hBlank : isBlank c with
    | false =>
      simp only [endsKeyword, hBlank, Bool.false_or, decide_eq_true_eq] at hEnds
      subst hEnds
      exact hEquals rest
    | true =>
      have hFlush : scanLine ⟨[], keyword, none, false, true, false⟩ (c :: rest) =
          scanLine (.afterKeyword keyword false) (skipBlanks rest) := by
        rw [scan_blank rfl rfl hBlank, ← scan_skipBlanks rfl rfl rfl]
        rfl
      have hSkip : skipBlanks (c :: rest) = skipBlanks rest := by simp [skipBlanks, hBlank]
      rw [hFlush, skipSeparator, hSkip]
      cases hText : skipBlanks rest with
      | nil => rfl
      | cons d rest' =>
        have hHead : isBlank d = false := head_dropWhile hText
        by_cases hd : d = '='
        · subst hd
          exact hEquals rest'
        have hReady : (Scan.afterKeyword keyword false).Ready (d :: rest') :=
          ⟨cons_ne_nil _ _, rfl, fun _ hq => absurd hq (by simp [Scan.afterKeyword]), fun _ => ⟨rfl, rfl⟩,
            .inr (.inr (.inr ⟨d, rest', rfl, hd, hHead⟩))⟩
        rw [scan_arguments rfl hReady]
        split
        next hSame =>
          cases hSame
          exact absurd rfl hd
        · rfl

theorem configFields_eq {line keyword : Text} {args : List Text} (h : readLine line = some (keyword, args))
    (hPlain : keyword.all isPlain = true) (hKeyword : keyword ≠ []) : configFields line = some (keyword :: args) := by
  obtain ⟨args', hArgs, hRead⟩ := Option.map_eq_some_iff.mp h
  obtain ⟨hWord, rfl⟩ := Prod.mk.inj hRead
  have hBody : skipBlanks line = keyword ++ (skipBlanks line).dropWhile (!endsKeyword ·) := by
    rw [← hWord, takeWhile_append_dropWhile]
  have hAfter : ∀ c ∈ ((skipBlanks line).dropWhile (!endsKeyword ·)).head?, endsKeyword c = true := by
    intro c hc
    obtain ⟨rest, hRest⟩ := head?_eq_some_iff.mp hc
    simpa using head_dropWhile hRest
  have hStarted : (Scan.start.started || !keyword.isEmpty) = true := by
    cases keyword with
    | nil => exact absurd rfl hKeyword
    | cons c keyword => rfl
  rw [configFields, scan_skipBlanks rfl rfl rfl line, hBody, scan_keyword hPlain rfl rfl, hStarted]
  exact (scan_separator keyword hAfter).trans (by rw [hArgs]; rfl)

end LocalModelWorks.WorkerSsh
