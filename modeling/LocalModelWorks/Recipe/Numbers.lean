import LocalModelWorks.Json
import LocalModelWorks.Recipe.Template
import Mathlib.Algebra.Ring.Rat

/-!
# Integer settings as text

A number reaches a template as a machine integer, as a decoded float or as a JSON literal,
and each is written in its own way.
-/

namespace LocalModelWorks.Recipe.Numbers

open Json (decimal)
open SourceConfig (literal quote)

variable (x : Rat)

def scale (exponent : Int) : Rat := if 0 ≤ exponent then x * 2 ^ exponent.toNat else x / 2 ^ (-exponent).toNat

def roundHalfEven : Int :=
  let rest := x - x.floor
  if rest < 1 / 2 ∨ rest = 1 / 2 ∧ x.floor % 2 = 0 then x.floor else x.floor + 1

/-- The nearest float64, unless it is infinite. -/
@[irreducible] def toFloat64 : Option Rat :=
  let high : Int := x.num.natAbs.log2 - x.den.log2
  let exponent := max ((if scale 1 high ≤ x.abs then high else high - 1) - 52) (-1074)
  let nearest := scale (roundHalfEven (scale x (-exponent))) exponent
  if nearest.abs < 2 ^ 1024 then some nearest else none

/-- The fewest leading digits that read back as the same float, and the number of places behind them. -/
def shortest (n : Nat) : Nat → Nat × Nat
  | 0 => (n, 0)
  | places + 1 =>
    let digits := (n + 5 * 10 ^ places) / 10 ^ (places + 1)
    if toFloat64 (digits * 10 ^ (places + 1) : Nat) = some n then (digits, places + 1) else shortest n places

variable (negative : Bool)

def sign : Text := if negative then ['-'] else []

/-- `FormatFloat` with format `g` and the shortest precision, at an integer: the form with an exponent starts at 10^6. -/
def formatFloat (n : Nat) : Text :=
  if n < 1000000 then sign negative ++ decimal n
  else
    let (leading, places) := shortest n (decimal n).length
    let digits := decimal leading
    let exponent := digits.length + places - 1
    sign negative ++ digits.take 1 ++ (if digits.length = 1 then [] else '.' :: digits.drop 1) ++
      'e' :: '+' :: ((if exponent < 10 then ['0'] else []) ++ decimal exponent)

structure Exponent where
  capital : Bool
  sign : Option Bool
  digits : List (Fin 10)

structure Literal where
  negative : Bool
  whole : Nat
  fraction : Option (List (Fin 10))
  exponent : Option Exponent

variable (digits : List (Fin 10))

def digitsText : Text := digits.map fun d => Nat.digitChar d

def digitsValue : Nat := digits.foldl (fun n d => 10 * n + d) 0

def signed (x : Rat) : Rat := if negative then -x else x

def Exponent.text (e : Exponent) : Text :=
  (if e.capital then 'E' else 'e') :: ((e.sign.elim [] fun minus => [if minus then '-' else '+']) ++ digitsText e.digits)

def Exponent.factor (e : Exponent) : Rat :=
  if e.sign = some true then 1 / 10 ^ digitsValue e.digits else 10 ^ digitsValue e.digits

namespace Literal

def text (l : Literal) : Text :=
  sign l.negative ++ decimal l.whole ++ l.fraction.elim [] (fun digits => '.' :: digitsText digits) ++
    l.exponent.elim [] Exponent.text

def value (l : Literal) : Rat :=
  signed l.negative ((l.whole + l.fraction.elim 0 fun digits => (digitsValue digits : Rat) / 10 ^ digits.length) *
    l.exponent.elim 1 Exponent.factor)

def Plain (l : Literal) : Prop := l.fraction = none ∧ l.exponent = none ∧ ¬(l.negative = true ∧ l.whole = 0)

end Literal

/-- What the check of an integer setting lets pass, by its dynamic type; a float that is no integer is refused. -/
inductive Number
  | int (n : Int)
  | float64 (negative : Bool) (n : Nat)
  | number (literal : Literal)

namespace Number

def value : Number → Rat
  | .int n => n
  | .float64 negative n => signed negative n
  | .number literal => literal.value

def text : Number → Text
  | .int n => decimal n
  | .float64 negative n => formatFloat negative n
  | .number literal => literal.text

def setting (v : Number) : Value := (toFloat64 v.value).elim (.other v.text) (.number · v.text)

def scalar : Number → SourceConfig.Value
  | .int n => .int n
  | .float64 negative n => .float (some (formatFloat negative n))
  | .number literal => .number literal.text (toFloat64 literal.value).isSome

/-- Floats below 10^6 and JSON literals without a fraction and an exponent, in both cases without a negative zero. -/
def Plain : Number → Prop
  | .int _ => True
  | .float64 negative n => n < 1000000 ∧ ¬(negative = true ∧ n = 0)
  | .number literal => literal.Plain

end Number

theorem mem_decimal {c : Char} {n : Int} (h : c ∈ decimal n) : c.isDigit = true ∨ c = '-' := by
  cases n with
  | ofNat n => exact .inl (Json.isDigit_of_mem_repr h)
  | negSucc n =>
    rcases List.mem_cons.mp h with rfl | hRest
    · exact .inr rfl
    · exact .inl (Json.isDigit_of_mem_repr hRest)

variable {negative : Bool} {m : Nat} {n : Int}

theorem sign_decimal_iff (h : signed negative m = n) :
    sign negative ++ decimal m = decimal n ↔ ¬(negative = true ∧ m = 0) := by
  cases negative with
  | false =>
    have hEq : n = m := by
      rw [signed, if_neg (by decide)] at h
      exact_mod_cast h.symm
    simp [hEq, sign]
  | true =>
    have hEq : n = -m := by
      exact (Rat.intCast_inj.mp h).symm
    cases m with
    | zero => simp [hEq, sign]
    | succ m =>
      rw [hEq]
      exact iff_of_true rfl (by simp)

theorem formatFloat_iff (h : signed negative m = n) :
    formatFloat negative m = decimal n ↔ m < 1000000 ∧ ¬(negative = true ∧ m = 0) := by
  rw [formatFloat]
  split
  next hSmall =>
    rw [sign_decimal_iff h]
    simp [hSmall]
  next hLarge =>
    refine iff_of_false (fun hText => ?_) fun hPlain => hLarge hPlain.1
    have hMem : 'e' ∈ decimal n := hText ▸ by simp
    exact absurd (mem_decimal hMem) (by decide)

theorem Literal.text_iff {l : Literal} {n : Int} (h : l.value = n) : l.text = decimal n ↔ l.Plain := by
  have hOnly {c : Char} (hMem : c ∈ l.text) (hOther : ¬(c.isDigit = true ∨ c = '-')) : l.text ≠ decimal n :=
    fun hText => hOther (mem_decimal (hText ▸ hMem))
  obtain ⟨negative, whole, fraction, exponent⟩ := l
  cases exponent with
  | some e =>
    refine iff_of_false ?_ fun hPlain => by cases hPlain.2.1
    cases hCapital : e.capital with
    | true => exact @hOnly 'E' (by simp [text, Exponent.text, hCapital]) (by decide)
    | false => exact @hOnly 'e' (by simp [text, Exponent.text, hCapital]) (by decide)
  | none =>
    cases fraction with
    | some digits => exact iff_of_false (@hOnly '.' (by simp [text]) (by decide)) fun hPlain => by cases hPlain.1
    | none =>
      have hValue : signed negative whole = n := by simpa [value] using h
      simpa [text, Plain] using sign_decimal_iff hValue

theorem toString_toList (n : Int) : (toString n).toList = decimal n := by
  cases n with
  | ofNat n => rfl
  | negSucc n => simp [decimal, Json.intLiteral, Int.repr]

theorem asNumber_of_accepted {checks : Checks} {p : Parameter} {value : Value} (hType : p.type = .int)
    (hOk : checkParamValue checks p value = none) : asNumber value ≠ none := by
  intro hNone
  unfold checkParamValue checkType at hOk
  split at hOk
  · cases hOk
  simp [hType, hNone] at hOk

/-- An accepted integer is written as itself exactly if it comes in one of the plain forms. -/
theorem integer_setting_iff {checks : Checks} {p : Parameter} {v : Number} {n : Int} (hType : p.type = .int)
    (hAccepted : checkParamValue checks p v.setting = none) (hValue : v.value = n) :
    formatSettingValue v.setting = decimal n ∧ literal v.scalar = quote (decimal n) ↔ v.Plain := by
  have hNumber := asNumber_of_accepted hType hAccepted
  cases hFloat : toFloat64 v.value with
  | none => exact absurd (by rw [Number.setting, hFloat]; rfl) hNumber
  | some float =>
    have hScalar : v.scalar.text = some v.text := by
      cases v with
      | int m => exact congrArg some (toString_toList m)
      | float64 negative m => rfl
      | number l => exact if_pos (Option.isSome_of_eq_some hFloat)
    have hText : v.text = decimal n ↔ v.Plain := by
      cases v with
      | int m => exact iff_of_true (congrArg decimal (Rat.intCast_inj.mp hValue)) trivial
      | float64 negative m => exact formatFloat_iff hValue
      | number l => exact l.text_iff hValue
    rw [Number.setting, hFloat, Option.elim_some, formatSettingValue, literal, hScalar, hText]
    exact and_iff_left_of_imp fun hPlain => by rw [hText.mpr hPlain]

def contextLength : Parameter :=
  ⟨"context_length".toList, .int, none, "", false, [], "", [], none, none, none, none, []⟩

def noChecks : Checks := ⟨fun _ _ => none, fun _ => none, fun _ => none, fun _ => none, fun _ => true⟩

theorem integer_setting_small : formatSettingValue (Number.float64 false 8192).setting = "8192".toList := by
  have hOk : checkParamValue noChecks contextLength (Number.float64 false 8192).setting = none := by decide +kernel
  exact ((integer_setting_iff rfl hOk rfl).mpr (by simp [Number.Plain])).1

theorem integer_setting_rewritten :
    checkParamValue noChecks contextLength (Number.float64 false 1048576).setting = none ∧
      formatSettingValue (Number.float64 false 1048576).setting = "1.048576e+06".toList ∧
      literal (Number.float64 false 1048576).scalar = .ok "'1.048576e+06'".toList := by
  refine ⟨?_, ?_, ?_⟩
  · decide +kernel
  · decide +kernel
  · decide +kernel

end LocalModelWorks.Recipe.Numbers
