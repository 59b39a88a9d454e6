import LocalModelWorks.Shell

/-!
# Encoding of configured values

The replacement texts that `sourceconfig` writes into pinned source, one encoder per format,
and what the command gets after exactly the expansion phases the format names.
-/

namespace LocalModelWorks.SourceConfig

open Shell List

def maxReplacementBytes : Nat := 1048576

def byteLength (text : Text) : Nat := text.foldl (fun n c => n + c.utf8Size) 0

/-- `strings.ReplaceAll` of one character. -/
def replaceAll (old : Char) (new : Text) (text : Text) : Text := text.flatMap fun c => if c = old then new else [c]

def quoteChar (c : Char) : Text := if c = '\'' then ['\'', '"', '\'', '"', '\''] else [c]

def quoted (text : Text) : Text := '\'' :: (replaceAll '\'' ['\'', '"', '\'', '"', '\''] text ++ ['\''])

def quote (text : Text) : Except String Text :=
  if byteLength text > maxReplacementBytes || text.contains '\x00' then
    .error "configuration literal invalid or too large"
  else .ok (quoted text)

def deferLineBreaks (text : Text) : Text :=
  replaceAll '\r' ['\'', '$', '\'', '\\', 'r', '\'', '\'']
    (replaceAll '\n' ['\'', '$', '\'', '\\', 'n', '\'', '\''] text)

def isHeredocActive (c : Char) : Bool := c = '\\' || c = '$' || c = '`'

def heredocEscape (text : Text) : Text := text.flatMap (escape isHeredocActive)

def isDoubleQuoteActive (c : Char) : Bool := c = '\\' || c = '$' || c = '`' || c = '"'

def doubleQuoteEscape (text : Text) : Text := text.flatMap (escape isDoubleQuoteActive)

inductive Format
  | shell | shellReparse | shellHeredoc | shellQuotedHeredoc | shellDoubleQuoted | shellCompose
  | argv | argvHeredoc | argvQuotedHeredoc
  deriving DecidableEq

/-- A setting's value. A float comes as the text of its shortest form, and without one when it is not finite; a
JSON number as its text and whether it is finite. -/
inductive Value
  | string (text : Text)
  | bool (b : Bool)
  | int (n : Int)
  | float (text : Option Text)
  | number (text : Text) (finite : Bool)
  | other
  deriving DecidableEq

def Value.text : Value → Option Text
  | .string text => some text
  | .bool b => some (toString b).toList
  | .int n => some (toString n).toList
  | .float text => text
  | .number text finite => if finite then some text else none
  | .other => none

def literal (value : Value) : Except String Text :=
  match value.text with
  | some text => quote text
  | none => .error "configuration requires a scalar literal"

def scalar (value : Value) (format : Format) : Except String Text :=
  match literal value with
  | .error message => .error message
  | .ok literal =>
    match format with
    | .shell => .ok literal
    | .shellReparse => quote (deferLineBreaks literal)
    | .shellHeredoc => .ok (heredocEscape (deferLineBreaks literal))
    | .shellDoubleQuoted => .ok (doubleQuoteEscape (deferLineBreaks literal))
    | .shellCompose => .ok (replaceAll '$' ['$', '$'] (deferLineBreaks literal))
    | _ => .ok (deferLineBreaks literal)

def quoteArgv (arg : Text) (format : Format) : Except String Text :=
  match quote arg with
  | .error message => .error message
  | .ok literal =>
    match format with
    | .argv => .ok literal
    | .argvHeredoc => .ok (heredocEscape (deferLineBreaks literal))
    | _ => .ok (deferLineBreaks literal)

def argvStrings : List (Option Text) → Except String (List Text)
  | [] => .ok []
  | none :: _ => .error "argv contains invalid literal"
  | some arg :: rest =>
    if arg.contains '\x00' then .error "argv contains invalid literal"
    else
      match argvStrings rest with
      | .error message => .error message
      | .ok args => .ok (arg :: args)

/-- `Argv`, over the decoder of a JSON array. -/
def argv (decode : Text → Option (List (Option Text))) : Value → Except String (List Text)
  | .string text =>
    if byteLength text > maxReplacementBytes then .error "argv must be a JSON string array"
    else
      match decode text with
      | none => .error "argv must be a JSON string array"
      | some values => argvStrings values
  | _ => .error "argv must be a JSON string array"

def quoteAll (format : Format) : List Text → Except String (List Text)
  | [] => .ok []
  | arg :: rest =>
    match quoteArgv arg format with
    | .error message => .error message
    | .ok literal =>
      match quoteAll format rest with
      | .error message => .error message
      | .ok literals => .ok (literal :: literals)

def joinArgv (literals : List Text) : Text := ' ' :: literals.flatMap (· ++ [' '])

variable (decode : Text → Option (List (Option Text))) (value : Value) (format : Format)

def argvReplacement : Except String Text :=
  match argv decode value with
  | .error message => .error message
  | .ok args =>
    match quoteAll format args with
    | .error message => .error message
    | .ok literals => .ok (joinArgv literals)

def replacement : Except String Text :=
  match format with
  | .argv | .argvHeredoc | .argvQuotedHeredoc => argvReplacement decode value format
  | _ => scalar value format

variable (quotesToo : Bool)

def Format.phases : Format → Text → Option Text
  | .shellHeredoc, text | .argvHeredoc, text => heredoc quotesToo text
  | .shellDoubleQuoted, text => doubleQuoted text
  | .shellCompose, text => interpolate text
  | .shellReparse, text =>
    match words text with
    | some [word] => some word
    | _ => none
  | _, text => some text

def Format.read (format : Format) (text : Text) : Option (List Text) :=
  (format.phases quotesToo text).bind words

def Format.meant : Format → Option (List Text)
  | .argv | .argvHeredoc | .argvQuotedHeredoc => (SourceConfig.argv decode value).toOption
  | _ => value.text.map fun text => [text]

theorem keepsQuoted_quoteChar : KeepsQuoted quoteChar := by
  intro c word rest
  by_cases hQuote : c = '\''
  · subst hQuote
    simp [quoteChar, scan, step, isBlank]
  · simp [quoteChar, hQuote, scan, step]

def deferredChar (c : Char) : Text := deferLineBreaks (quoteChar c)

theorem keepsQuoted_deferredChar : KeepsQuoted deferredChar := by
  intro c word rest
  by_cases hQuote : c = '\''
  · subst hQuote
    exact keepsQuoted_quoteChar '\'' word rest
  by_cases hLine : c = '\n'
  · subst hLine
    simp [deferredChar, deferLineBreaks, replaceAll, quoteChar, scan, step, isBlank, ansiEscape]
  by_cases hReturn : c = '\r'
  · subst hReturn
    simp [deferredChar, deferLineBreaks, replaceAll, quoteChar, scan, step, isBlank, ansiEscape]
  simp [deferredChar, deferLineBreaks, replaceAll, quoteChar, hQuote, hLine, hReturn, scan, step]

variable (text : Text)

theorem quoted_eq : quoted text = '\'' :: (text.flatMap quoteChar ++ ['\'']) := rfl

theorem replaceAll_flatMap (old : Char) (new : Text) (f : Char → Text) (text : Text) :
    replaceAll old new (text.flatMap f) = text.flatMap fun c => replaceAll old new (f c) :=
  flatMap_assoc

theorem deferLineBreaks_quoted : deferLineBreaks (quoted text) = '\'' :: (text.flatMap deferredChar ++ ['\'']) := by
  have hFlat : deferLineBreaks (text.flatMap quoteChar) = text.flatMap deferredChar := by
    rw [deferLineBreaks, replaceAll_flatMap, replaceAll_flatMap]
    rfl
  rw [← hFlat]
  simp [quoted_eq, deferLineBreaks, replaceAll]

theorem words_quoted : words (quoted text) = some [text] := by
  rw [quoted_eq, words, keepsQuoted_quoteChar.scan]
  rfl

theorem words_deferred : words (deferLineBreaks (quoted text)) = some [text] := by
  rw [deferLineBreaks_quoted, words, keepsQuoted_deferredChar.scan]
  rfl

theorem heredoc_escape : heredoc quotesToo (heredocEscape text) = some text := by
  refine unescape_escape ?_ rfl rfl ?_ text
  · intro c h
    simp only [isHeredocActive, Bool.or_eq_true, decide_eq_true_eq] at h
    rcases h with (rfl | rfl) | rfl <;> rfl
  intro c h
  simp only [Bool.or_eq_true, decide_eq_true_eq] at h
  rcases h with rfl | rfl <;> rfl

theorem doubleQuoted_escape : doubleQuoted (doubleQuoteEscape text) = some text := by
  refine unescape_escape ?_ rfl rfl ?_ text
  · intro c h
    simp only [isDoubleQuoteActive, Bool.or_eq_true, decide_eq_true_eq] at h
    rcases h with ((rfl | rfl) | rfl) | rfl <;> rfl
  intro c h
  simp only [Bool.or_eq_true, decide_eq_true_eq] at h
  rcases h with (rfl | rfl) | rfl <;> rfl

theorem interpolate_replaceAll : interpolate (replaceAll '$' ['$', '$'] text) = some text :=
  interpolate_double text

def Fits : Prop := byteLength text ≤ maxReplacementBytes ∧ '\x00' ∉ text

variable {text result : Text} {value : Value} {format : Format} {decode : Text → Option (List (Option Text))}

instance : Decidable (Fits text) := inferInstanceAs (Decidable (_ ∧ _))

theorem quote_eq : quote text =
    if Fits text then .ok (quoted text) else .error "configuration literal invalid or too large" := by
  simp only [quote, Fits]
  grind

def Format.encode : Format → Text → Text
  | .shell, text | .argv, text => quoted text
  | .shellReparse, text => quoted (deferLineBreaks (quoted text))
  | .shellHeredoc, text | .argvHeredoc, text => heredocEscape (deferLineBreaks (quoted text))
  | .shellDoubleQuoted, text => doubleQuoteEscape (deferLineBreaks (quoted text))
  | .shellCompose, text => replaceAll '$' ['$', '$'] (deferLineBreaks (quoted text))
  | .shellQuotedHeredoc, text | .argvQuotedHeredoc, text => deferLineBreaks (quoted text)

def Format.Takes (format : Format) (text : Text) : Prop :=
  Fits text ∧ (format = .shellReparse → Fits (deferLineBreaks (quoted text)))

def Format.isArgv : Format → Bool
  | .argv | .argvHeredoc | .argvQuotedHeredoc => true
  | _ => false

theorem scalar_ok (hScalar : format.isArgv = false) : scalar value format = .ok result ↔
      ∃ text, value.text = some text ∧ format.Takes text ∧ result = format.encode text := by
  unfold scalar literal
  cases value.text with
  | none => simp
  | some text =>
    by_cases hFits : Fits text
    · simp only [quote_eq, hFits, if_true]
      cases format with
      | shellReparse =>
        by_cases hAgain : Fits (deferLineBreaks (quoted text))
        · simp [Format.encode, Format.Takes, hFits, hAgain, eq_comm]
        · simp [Format.Takes, hAgain]
      | argv | argvHeredoc | argvQuotedHeredoc => cases hScalar
      | _ => simp [Format.encode, Format.Takes, hFits, eq_comm]
    · simp [quote_eq, hFits, Format.Takes]

theorem quoteArgv_eq (hArgv : format.isArgv = true) (arg : Text) : quoteArgv arg format =
    if Fits arg then .ok (format.encode arg) else .error "configuration literal invalid or too large" := by
  unfold quoteArgv
  by_cases hFits : Fits arg
  · cases format with
    | argv | argvHeredoc | argvQuotedHeredoc => simp [quote_eq, hFits, Format.encode]
    | _ => cases hArgv
  · simp [quote_eq, hFits]

theorem quoteAll_eq (hArgv : format.isArgv = true) (args : List Text) : quoteAll format args =
    if ∀ arg ∈ args, Fits arg then .ok (args.map format.encode)
    else .error "configuration literal invalid or too large" := by
  induction args with
  | nil => simp [quoteAll]
  | cons arg args ih =>
    rw [quoteAll, quoteArgv_eq hArgv, ih]
    by_cases hArg : Fits arg
    · by_cases hRest : ∀ arg ∈ args, Fits arg
      · simp [hArg, if_pos hRest]
      · simp [hArg, hRest]
    · simp [hArg]

theorem read_encode (quotesToo : Bool) (hScalar : format.isArgv = false) (text : Text) :
    format.read quotesToo (format.encode text) = some [text] := by
  cases format with
  | shell => exact words_quoted text
  | shellQuotedHeredoc => exact words_deferred text
  | shellReparse | shellHeredoc | shellDoubleQuoted | shellCompose =>
    simp [Format.read, Format.phases, Format.encode, words_quoted, heredoc_escape, doubleQuoted_escape,
      interpolate_replaceAll, words_deferred]
  | argv | argvHeredoc | argvQuotedHeredoc => cases hScalar

theorem words_joinArgv {encode : Char → Text} (hKeeps : KeepsQuoted encode) (args : List Text) :
    words (joinArgv (args.map fun arg => '\'' :: (arg.flatMap encode ++ ['\'']))) = some args := by
  rw [words, joinArgv, scan_blank]
  induction args with
  | nil => rfl
  | cons arg args ih =>
    simp only [map_cons, flatMap_cons, cons_append, append_assoc, nil_append]
    rw [hKeeps.scan, scan_word_blank, ih]
    rfl

theorem heredocEscape_joinArgv (literals : List Text) :
    joinArgv (literals.map heredocEscape) = heredocEscape (joinArgv literals) := by
  have hBlank : escape isHeredocActive ' ' = [' '] := rfl
  simp only [joinArgv, heredocEscape, flatMap_cons, hBlank, singleton_append, List.cons.injEq, true_and]
  induction literals with
  | nil => rfl
  | cons literal literals ih =>
    simp only [map_cons, flatMap_cons, flatMap_append, ih]
    rfl

theorem read_joinArgv (quotesToo : Bool) (hArgv : format.isArgv = true) (args : List Text) :
    format.read quotesToo (joinArgv (args.map format.encode)) = some args := by
  have hDeferred : words (joinArgv (args.map fun arg => deferLineBreaks (quoted arg))) = some args := by
    simp only [deferLineBreaks_quoted]
    exact words_joinArgv keepsQuoted_deferredChar args
  cases format with
  | argv => exact words_joinArgv keepsQuoted_quoteChar args
  | argvQuotedHeredoc => exact hDeferred
  | argvHeredoc =>
    have hEsc : args.map (Format.encode .argvHeredoc) =
        (args.map fun arg => deferLineBreaks (quoted arg)).map heredocEscape := by
      simp [Format.encode]
    rw [hEsc, heredocEscape_joinArgv]
    simp only [Format.read, Format.phases, heredoc_escape]
    exact hDeferred
  | shell | shellReparse | shellHeredoc | shellQuotedHeredoc | shellDoubleQuoted | shellCompose => cases hArgv

/-- The format's text may stand in a here-document or a block of a generated file. -/
def Format.inBlock : Format → Bool
  | .shell | .argv => false
  | _ => true

theorem line_not_mem_flatMap {f : Char → Text} (hChar : ∀ c, '\n' ∈ f c → '\n' = c) (h : '\n' ∉ text) :
    '\n' ∉ text.flatMap f := by
  intro hMem
  obtain ⟨c, hc, hLine⟩ := mem_flatMap.mp hMem
  exact h (hChar c hLine ▸ hc)

theorem line_not_mem_escape {special : Char → Bool} (h : '\n' ∉ text) : '\n' ∉ text.flatMap (escape special) := by
  refine line_not_mem_flatMap (fun c hLine => ?_) h
  unfold escape at hLine
  split at hLine <;> simpa using hLine

theorem line_not_mem_replaceAll {old : Char} {new : Text} (hNew : '\n' ∉ new) (h : '\n' ∉ text) :
    '\n' ∉ replaceAll old new text := by
  refine line_not_mem_flatMap (fun c hLine => ?_) h
  split at hLine
  · exact absurd hLine hNew
  · exact mem_singleton.mp hLine

theorem line_not_mem_deferLineBreaks (text : Text) : '\n' ∉ deferLineBreaks text := by
  refine line_not_mem_replaceAll (by decide) fun hMem => ?_
  obtain ⟨c, -, hLine⟩ := mem_flatMap.mp hMem
  by_cases hBreak : c = '\n'
  · simp [hBreak] at hLine
  · simp [hBreak, Ne.symm hBreak] at hLine

theorem line_not_mem_quoted (h : '\n' ∉ text) : '\n' ∉ quoted text := by
  simp [quoted, line_not_mem_replaceAll _ h]

theorem line_not_mem_encode (hBlock : format.inBlock = true) (text : Text) : '\n' ∉ format.encode text := by
  have hDeferred := line_not_mem_deferLineBreaks (quoted text)
  cases format with
  | shell | argv => cases hBlock
  | shellReparse => exact line_not_mem_quoted hDeferred
  | shellHeredoc | argvHeredoc | shellDoubleQuoted => exact line_not_mem_escape hDeferred
  | shellCompose => exact line_not_mem_replaceAll (by decide) hDeferred
  | shellQuotedHeredoc | argvQuotedHeredoc => exact hDeferred

theorem quote_mem_encode (format : Format) (text : Text) : '\'' ∈ format.encode text := by
  have hDeferred : '\'' ∈ deferLineBreaks (quoted text) := by simp [deferLineBreaks_quoted]
  have hEscape : ∀ special : Char → Bool, special '\'' = false → ∀ t : Text, '\'' ∈ t → '\'' ∈ t.flatMap (escape special) := by
    intro special hPlain t hMem
    exact mem_flatMap.mpr ⟨'\'', hMem, by simp [escape, hPlain]⟩
  cases format with
  | shell | argv | shellReparse => simp [Format.encode, quoted]
  | shellHeredoc | argvHeredoc | shellDoubleQuoted => exact hEscape _ rfl _ hDeferred
  | shellCompose => exact mem_flatMap.mpr ⟨'\'', hDeferred, by decide⟩
  | shellQuotedHeredoc | argvQuotedHeredoc => exact hDeferred

def Format.Accepts (decode : Text → Option (List (Option Text))) (value : Value) (format : Format) : Prop :=
  ∃ meant, format.meant decode value = some meant ∧ ∀ word ∈ meant, format.Takes word

/-- A line that holds the text is not the delimiter of the here-document around it, and the text adds no other. -/
def CannotEndHeredoc (text : Text) : Prop :=
  ∀ before after delimiter : Text, '\n' ∉ before → '\n' ∉ after → '\'' ∉ delimiter →
    delimiter ∉ lines (before ++ text ++ after)

theorem cannotEndHeredoc_of_quote (hLine : '\n' ∉ text) (hQuote : '\'' ∈ text) : CannotEndHeredoc text := by
  intro before after delimiter hPre hAfter hPlain hMem
  have hOne : '\n' ∉ before ++ text ++ after := by simp [hPre, hLine, hAfter]
  rw [lines, splitOn_eq_singleton hOne, mem_singleton] at hMem
  exact hPlain (hMem ▸ by simp [hQuote])

theorem replacement_eq : replacement decode value format =
    if format.isArgv then argvReplacement decode value format else scalar value format := by
  cases format <;> rfl

theorem meant_eq : format.meant decode value =
    if format.isArgv then (argv decode value).toOption else value.text.map fun text => [text] := by
  cases format <;> rfl

theorem Format.Takes.iff_fits {arg : Text} (hArgv : format.isArgv = true) : format.Takes arg ↔ Fits arg := by
  cases format with
  | shellReparse => cases hArgv
  | _ => simp [Format.Takes]

def Format.joined (format : Format) (words : List Text) : Text :=
  if format.isArgv then joinArgv (words.map format.encode) else words.flatMap format.encode

theorem replacement_ok : replacement decode value format = .ok result ↔ ∃ meant,
    format.meant decode value = some meant ∧ (∀ word ∈ meant, format.Takes word) ∧ result = format.joined meant := by
  rw [replacement_eq, meant_eq]
  unfold Format.joined
  cases hKind : format.isArgv with
  | true =>
    simp only [argvReplacement, quoteAll_eq hKind, Format.Takes.iff_fits hKind, if_true]
    cases argv decode value with
    | error => simp [Except.toOption]
    | ok args =>
      by_cases hAll : ∀ arg ∈ args, Fits arg
      · simpa [Except.toOption, if_pos hAll, eq_comm] using fun _ => hAll
      · simp [Except.toOption, hAll]
  | false => simp [scalar_ok hKind]

/-- A format accepts exactly the values whose words it can quote. Its replacement, read through the phases that
the format names, is those words: nothing in them is expanded or executed, and in a here-document they cannot
end it. -/
theorem configured_value_literal (decode : Text → Option (List (Option Text))) (quotesToo : Bool) (value : Value)
    (format : Format) :
    ((∃ result, replacement decode value format = .ok result) ↔ format.Accepts decode value) ∧
    ∀ result, replacement decode value format = .ok result →
      ∃ meant, format.meant decode value = some meant ∧ format.read quotesToo result = some meant ∧
        (format.inBlock = true → '\n' ∉ result ∧ (meant ≠ [] → CannotEndHeredoc result)) := by
  refine ⟨by simp [replacement_ok, Format.Accepts], fun result h => ?_⟩
  obtain ⟨meant, hMeant, -, rfl⟩ := replacement_ok.mp h
  refine ⟨meant, hMeant, ?_⟩
  unfold Format.joined
  cases hKind : format.isArgv with
  | true =>
    refine ⟨read_joinArgv quotesToo hKind meant, fun hBlock => ?_⟩
    have hLine : '\n' ∉ joinArgv (meant.map format.encode) := by
      simp [joinArgv, line_not_mem_encode hBlock]
    refine ⟨hLine, fun hSome => cannotEndHeredoc_of_quote hLine ?_⟩
    cases meant with
    | nil => exact absurd rfl hSome
    | cons word rest => simp [joinArgv, quote_mem_encode format word]
  | false =>
    rw [meant_eq, hKind] at hMeant
    obtain ⟨text, -, rfl⟩ := Option.map_eq_some_iff.mp hMeant
    simp only [flatMap_cons, flatMap_nil, append_nil]
    refine ⟨read_encode quotesToo hKind text, fun hBlock => ?_⟩
    have hLine := line_not_mem_encode hBlock text
    exact ⟨hLine, fun _ => cannotEndHeredoc_of_quote hLine (quote_mem_encode format text)⟩

theorem configured_value_literal_heredoc :
    ∃ result, replacement (fun _ => none) (.string ['\'', '$', 'x', '\n']) .shellHeredoc = .ok result ∧
      Format.read true .shellHeredoc result = some [['\'', '$', 'x', '\n']] ∧ CannotEndHeredoc result := by
  have hLiteral := configured_value_literal (fun _ => none) true (.string ['\'', '$', 'x', '\n']) .shellHeredoc
  obtain ⟨result, hRes⟩ := hLiteral.1.mpr ⟨_, rfl, by simp [Format.Takes, Fits]; decide⟩
  obtain ⟨meant, hMeant, hRead, hBlock⟩ := hLiteral.2 result hRes
  cases hMeant
  exact ⟨result, hRes, hRead, (hBlock rfl).2 (by simp)⟩

end LocalModelWorks.SourceConfig
