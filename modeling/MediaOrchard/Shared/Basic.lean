/-
  Values shared by Controller and Worker: the status enumerations of
  `shared/enums.py`, JSON values as Python holds them, and the conversions of
  the standard library that the program applies to them.

  A Python `dict` with string keys is the list of its entries in insertion
  order, keys distinct.  A JSON number is a rational; `float()` rounds it to
  binary64 and raises for an integer that is too large (`PyFloat`, `floatOfInt`).
-/
import MediaOrchard.Lib.Binary64
import MediaOrchard.Lib.Text
import Mathlib.Data.List.Infix
import Mathlib.Data.Rat.Defs
import Mathlib.Algebra.Order.Ring.Unbundled.Rat

namespace MediaOrchard

/-! ## Statuses -/

inductive NodeStatus where
  | online | offline | cooldown
  deriving DecidableEq, Repr

inductive JobStatus where
  | created | planning | waitingApproval | queued | running | completed | failed | cancelled
  | retrying
  deriving DecidableEq, Repr

inductive StepStatus where
  | pending | queued | assigned | running | completed | failed | skipped | cancelled
  deriving DecidableEq, Repr

/-- The text of a `StepStatus` member (a `StrEnum`). -/
def StepStatus.value : StepStatus → String
  | pending => "pending"
  | queued => "queued"
  | assigned => "assigned"
  | running => "running"
  | completed => "completed"
  | failed => "failed"
  | skipped => "skipped"
  | cancelled => "cancelled"

/-! ## JSON values -/

inductive Json where
  | null
  | bool (b : Bool)
  | int (n : ℤ)
  | float (q : ℚ)
  | str (s : String)
  | arr (xs : List Json)
  | obj (kvs : List (String × Json))

/-- A Python `dict[str, Any]`. -/
abbrev Dict := List (String × Json)

/-- `d.get(key)` -/
def Dict.get? (d : Dict) (key : String) : Option Json := d.lookup key

/-- `d.get(key, default)` -/
def Dict.getD (d : Dict) (key : String) (dflt : Json) : Json := (d.get? key).getD dflt

/-- `d[key] = v`: an existing key keeps its place. -/
def dictSet {α : Type} (d : List (String × α)) (key : String) (v : α) : List (String × α) :=
  if d.any (fun kv => kv.1 == key) then d.map fun kv => if kv.1 == key then (key, v) else kv
  else d ++ [(key, v)]

/-- Python truth of a value. -/
def Json.truthy : Json → Bool
  | null => false
  | bool b => b
  | int n => n != 0
  | float q => q != 0
  | str s => s != ""
  | arr xs => !xs.isEmpty
  | obj kvs => !kvs.isEmpty

/-- The exceptions the scheduler can meet in malformed rows. -/
inductive PyError where
  | attributeError | typeError | valueError | overflowError
  deriving DecidableEq, Repr

/-- `s in v` for a string `s`: a list is searched for an equal item, a dict for
    a key, a string for a substring. -/
def Json.contains (v : Json) (s : String) : Except PyError Bool :=
  match v with
  | arr xs => .ok (xs.any fun x => match x with | .str t => t == s | _ => false)
  | obj kvs => .ok (kvs.any fun kv => kv.1 == s)
  | str t => .ok (decide (s.toList <:+: t.toList))
  | _ => .error .typeError

/-! ## `str.strip()` -/

/-- `c.isspace()` -/
def pyIsSpace (c : Char) : Bool :=
  let n := c.toNat
  (9 ≤ n && n ≤ 13) || (28 ≤ n && n ≤ 32) || n = 133 || n = 160 || n = 5760 ||
    (8192 ≤ n && n ≤ 8202) || n = 8232 || n = 8233 || n = 8239 || n = 8287 || n = 12288

/-- `s.strip()` -/
def pyStrip (s : String) : String :=
  String.ofList ((s.toList.dropWhile pyIsSpace).reverse.dropWhile pyIsSpace).reverse

theorem toList_pyStrip (s : String) : (pyStrip s).toList = Text.trim pyIsSpace s.toList :=
  String.toList_ofList

theorem pyStrip_trimmed (s : String) : Text.Trimmed pyIsSpace (pyStrip s).toList := by
  rw [toList_pyStrip]
  exact Text.trimmed_trim _ _

theorem pyStrip_of_trimmed {s : String} (h : Text.Trimmed pyIsSpace s.toList) : pyStrip s = s :=
  String.toList_injective ((toList_pyStrip s).trans h.trim_eq)

theorem pyStrip_pyStrip (s : String) : pyStrip (pyStrip s) = pyStrip s :=
  pyStrip_of_trimmed (pyStrip_trimmed s)

theorem pyStrip_empty : pyStrip "" = "" := String.toList_injective (by simp [pyStrip])

/-- `s.split(sep)` of a one-character separator -/
def pySplit (sep : Char) (s : String) : List String := (s.toList.splitOn sep).map String.ofList

theorem not_pyIsSpace_of_isDigit {c : Char} (h : c.isDigit) : ¬ pyIsSpace c := by
  have hn : 48 ≤ c.toNat ∧ c.toNat ≤ 57 := by
    simp only [Char.isDigit, Bool.and_eq_true, decide_eq_true_eq, ge_iff_le,
      UInt32.le_iff_toNat_le] at h
    exact h
  simp only [pyIsSpace, Bool.or_eq_true, Bool.and_eq_true, decide_eq_true_eq]
  omega

/-! ## Rounding -/

/-- The nearest integer, ties to even. -/
abbrev roundHalfEven (q : ℚ) : ℤ := Binary64.halfEven q

/-- `round(x, n)` -/
def pyRound (q : ℚ) (n : ℕ) : ℚ := roundHalfEven (q * 10 ^ n) / 10 ^ n

/-! ## `float()` -/

/-- A float: a finite value, an infinity (negative or not) or NaN. -/
inductive PyFloat where
  | fin (q : ℚ)
  | inf (neg : Bool)
  | nan
  deriving DecidableEq

/-- The float nearest to a number. -/
def PyFloat.ofRat (q : ℚ) : PyFloat :=
  match Binary64.ofRat q with
  | some x => .fin x
  | none => .inf (q < 0)

/-- A number as a float. -/
def PyFloat.rounded : PyFloat → PyFloat
  | fin q => .ofRat q
  | x => x

/-- `float(n)` of an integer -/
def floatOfInt (n : ℤ) : Except PyError ℚ :=
  match Binary64.ofRat n with
  | some x => .ok x
  | none => .error .overflowError

theorem floatOfInt_none {n : ℤ} (h : Binary64.ofRat n = none) :
    floatOfInt n = .error .overflowError := by
  unfold floatOfInt
  simp only [h]

theorem floatOfInt_some {n : ℤ} {x : ℚ} (h : Binary64.ofRat n = some x) : floatOfInt n = .ok x := by
  unfold floatOfInt
  simp only [h]

/-- `x > n`; every comparison with NaN is false. -/
def PyFloat.gt (x : PyFloat) (n : ℤ) : Bool :=
  match x with
  | fin q => decide (q > n)
  | inf neg => !neg
  | nan => false

/-- Digits, with single underscores between them. -/
def digitPart? : List Char → Option ℕ
  | [] => none
  | c :: cs => if c.isDigit then go (c.toNat - '0'.toNat) cs else none
where
  go (acc : ℕ) : List Char → Option ℕ
    | [] => some acc
    | [c] => if c.isDigit then some (acc * 10 + (c.toNat - '0'.toNat)) else none
    | c :: c' :: cs =>
      if c.isDigit then go (acc * 10 + (c.toNat - '0'.toNat)) (c' :: cs)
      else if c == '_' && c'.isDigit then go (acc * 10 + (c'.toNat - '0'.toNat)) cs
      else none

/-- An optional sign, and what follows it. -/
def splitSign : List Char → Bool × List Char
  | '+' :: cs => (false, cs)
  | '-' :: cs => (true, cs)
  | cs => (false, cs)

/-- The mantissa: `d`, `d.`, `d.d` or `.d`. -/
def mantissa? (cs : List Char) : Option ℚ :=
  let (whole, rest) := cs.span (· ≠ '.')
  match rest with
  | [] => (digitPart? whole).map fun n => (n : ℚ)
  | _ :: frac =>
    let scale : ℚ := (10 : ℚ) ^ (frac.filter (· ≠ '_')).length
    if frac.isEmpty then (digitPart? whole).map fun n => (n : ℚ)
    else if whole.isEmpty then (digitPart? frac).map fun m => (m : ℚ) / scale
    else do
      let n ← digitPart? whole
      let m ← digitPart? frac
      return (n : ℚ) + (m : ℚ) / scale

/-- The zeros of the decimal digits of all scripts (Unicode 14). -/
def digitZeros : List ℕ :=
  [48, 1632, 1776, 1984, 2406, 2534, 2662, 2790, 2918, 3046, 3174, 3302, 3430, 3558, 3664, 3792,
    3872, 4160, 4240, 6112, 6160, 6470, 6608, 6784, 6800, 6992, 7088, 7232, 7248, 42528, 43216,
    43264, 43472, 43504, 43600, 44016, 65296, 66720, 68912, 69734, 69872, 69942, 70096, 70384,
    70736, 70864, 71248, 71360, 71472, 71904, 72016, 72784, 73040, 73120, 92768, 92864, 93008,
    120782, 120792, 120802, 120812, 120822, 123200, 123632, 125264, 130032]

/-- A character as `float()` reads it: digits and white space of all scripts count. -/
def asciiChar (c : Char) : Char :=
  if c.toNat < 127 then c
  else if pyIsSpace c then ' '
  else match digitZeros.find? fun first => first ≤ c.toNat && c.toNat < first + 10 with
    | some first => Char.ofNat (48 + (c.toNat - first))
    | none => '?'

/-- The white space that `float()` strips once the text is ASCII. -/
def isAsciiSpace (c : Char) : Bool := (9 ≤ c.toNat && c.toNat ≤ 13) || c.toNat = 32

/-- The number that a text denotes for `float()`: a decimal literal with an
    optional exponent, `inf`, `infinity` or `nan`, in surrounding white space. -/
def numeral (s : String) : Except PyError PyFloat :=
  let text := Text.trim isAsciiSpace (s.toList.map asciiChar)
  let (neg, cs) := splitSign (text.map Char.toLower)
  if cs = "inf".toList ∨ cs = "infinity".toList then .ok (.inf neg)
  else if cs = "nan".toList then .ok .nan
  else
    let (mant, ex) := cs.span (· ≠ 'e')
    let value : Option ℚ := do
      let m ← mantissa? mant
      match ex with
      | [] => return m
      | _ :: e =>
        let (eneg, ds) := splitSign e
        let n ← digitPart? ds
        return if eneg then m / (10 : ℚ) ^ n else m * (10 : ℚ) ^ n
    match value with
    | some q => .ok (.fin (if neg then -q else q))
    | none => .error .valueError

/-- `float(s)` -/
def floatOfString (s : String) : Except PyError PyFloat := (numeral s).map PyFloat.rounded

/-- `float(value or 0)` -/
def Json.floatOr0 (v : Json) : Except PyError PyFloat :=
  if v.truthy then
    match v with
    | bool _ => .ok (.fin 1)
    | int n => (floatOfInt n).map .fin
    | float q => .ok (.ofRat q)
    | str s => floatOfString s
    | _ => .error .typeError
  else .ok (.fin 0)

/-! ## Exceptions -/

/-- A sequence that returned: so did its first part. -/
theorem bind_ok {ε α β : Type} {x : Except ε α} {f : α → Except ε β} {b : β}
    (h : x >>= f = .ok b) : ∃ a, x = .ok a ∧ f a = .ok b := by
  cases x with
  | error => cases h
  | ok a => exact ⟨a, rfl, h⟩

end MediaOrchard
