/-
  Redaction of secrets (`redact_secrets` of `shared/security.py`).

  A `Value` is what the function is given: mappings, lists, tuples, strings and
  other scalars, nested to any depth.  Keys and scalars other than strings are
  of any type; the text of a key, `str(key).lower()`, is a parameter.  In a
  `PyValue` the keys of every mapping are distinct, as they are in Python.
-/
import Mathlib.Data.List.Infix
import Mathlib.Data.List.Nodup

namespace MediaOrchard.Redaction

/-- A Python value with keys `κ` and scalars `α` other than strings. -/
inductive Value (κ α : Type) where
  | str (s : String)
  | scalar (a : α)
  | list (items : List (Value κ α))
  | tuple (items : List (Value κ α))
  | dict (items : List (κ × Value κ α))

variable {κ α : Type}

/-- `REDACTED` -/
def redacted : Value κ α := .str "[REDACTED]"

/-- `DEFAULT_REDACT_FIELDS` -/
def defaultRedactFields : List String := ["api_key", "authorization", "token", "secret"]

variable [DecidableEq κ]

/-- `d[key] = v`: an existing key keeps its place. -/
def setItem (d : List (κ × Value κ α)) (key : κ) (v : Value κ α) : List (κ × Value κ α) :=
  if key ∈ d.map Prod.fst then d.map fun kv => if kv.1 = key then (key, v) else kv
  else d ++ [(key, v)]

/-! ## Values with distinct keys -/

mutual

/-- The keys of every mapping are distinct. -/
def Value.wellFormed : Value κ α → Bool
  | .str _ => true
  | .scalar _ => true
  | .list items => wellFormedAll items
  | .tuple items => wellFormedAll items
  | .dict items => decide (items.map Prod.fst).Nodup && wellFormedItems items

def wellFormedAll : List (Value κ α) → Bool
  | [] => true
  | v :: items => v.wellFormed && wellFormedAll items

def wellFormedItems : List (κ × Value κ α) → Bool
  | [] => true
  | (_, v) :: items => v.wellFormed && wellFormedItems items

end

/-! ## `redact_secrets` -/

section
variable (keyText : κ → String) (redactFields : List String)

/-- `any(field in key_text for field in redact_fields)` -/
def isSensitive (key : κ) : Bool :=
  redactFields.any fun field => field.toList <:+: (keyText key).toList

mutual

/-- `redact_secrets` -/
def redactSecrets : Value κ α → Value κ α
  | .str s => .str s
  | .scalar a => .scalar a
  | .list items => .list (redactAll items)
  | .tuple items => .tuple (redactAll items)
  | .dict items => .dict (redactItems [] items)

def redactAll : List (Value κ α) → List (Value κ α)
  | [] => []
  | v :: items => redactSecrets v :: redactAll items

/-- The loop over `value.items()`; `acc` is the mapping built so far. -/
def redactItems (acc : List (κ × Value κ α)) : List (κ × Value κ α) → List (κ × Value κ α)
  | [] => acc
  | (key, item) :: items =>
    let value := if isSensitive keyText redactFields key then redacted else redactSecrets item
    redactItems (setItem acc key value) items

end

end

end MediaOrchard.Redaction
