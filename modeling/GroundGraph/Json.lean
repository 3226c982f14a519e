import Mathlib.Algebra.Group.Nat.Defs
import Mathlib.Data.List.Basic

/-! JSON values: `domain/types.py` and `infrastructure/postgres/json_utils.py`. -/

set_option autoImplicit false

namespace GroundGraph

/-- A double, by its bits. -/
abbrev PyFloat := BitVec 64

/-- `math.isnan(x) or math.isinf(x)`: the exponent is all ones. -/
def PyFloat.nonFinite (x : PyFloat) : Bool := decide ((x.toNat / 2 ^ 52) % 2048 = 2047)

/-- The Python values `validate_json_value` looks at, with containers unfolded.
`backReference` stands for a list or dict that is still open on the way down. -/
inductive PyValue where
  | none
  | bool (b : Bool)
  | int (i : Int)
  | float (x : PyFloat)
  | str (s : String)
  | list (items : List PyValue)
  | dict (items : List ((String ⊕ String) × PyValue))
  | backReference (isDict : Bool)
  | other (typeName : String)

inductive JsonValue where
  | null
  | bool (b : Bool)
  | int (i : Int)
  | float (x : PyFloat) (finite : x.nonFinite = false)
  | str (s : String)
  | list (items : List JsonValue)
  | dict (items : List (String × JsonValue))

abbrev JsonObject := List (String × JsonValue)

/-- `d[key] = value`. -/
def JsonObject.set (key : String) (value : JsonValue) : JsonObject → JsonObject
  | [] => [(key, value)]
  | entry :: rest =>
    if entry.1 = key then (key, value) :: rest else entry :: JsonObject.set key value rest

/-- `{**base, **extra}`. -/
def JsonObject.update (base extra : JsonObject) : JsonObject :=
  extra.foldl (fun object entry => JsonObject.set entry.1 entry.2 object) base

/-- `d.get(key)`. -/
def JsonObject.find (key : String) (object : JsonObject) : Option JsonValue :=
  (object.find? fun entry => decide (entry.1 = key)).map Prod.snd

/-- What `validate_json_value` and `snapshot_json_object` raise. -/
inductive JsonError where
  | nonFiniteFloat | listCycle | dictCycle
  | keyNotStr (typeName : String)
  | notJson (typeName : String)
  | objectExpected (typeName : String)
  deriving DecidableEq, Repr

mutual

/-- A dict key is a string (`inl`) or some other object, known by its type. -/
def validateJsonValue : PyValue → Except JsonError JsonValue
  | .none => .ok .null
  | .bool b => .ok (.bool b)
  | .int i => .ok (.int i)
  | .float x => if h : x.nonFinite = false then .ok (.float x h) else .error .nonFiniteFloat
  | .str s => .ok (.str s)
  | .list items =>
    match validateItems items with
    | .ok js => .ok (.list js)
    | .error e => .error e
  | .dict items =>
    match validateEntries items with
    | .ok js => .ok (.dict js)
    | .error e => .error e
  | .backReference isDict => .error (if isDict then .dictCycle else .listCycle)
  | .other typeName => .error (.notJson typeName)

def validateItems : List PyValue → Except JsonError (List JsonValue)
  | [] => .ok []
  | v :: vs =>
    match validateJsonValue v with
    | .error e => .error e
    | .ok j =>
      match validateItems vs with
      | .error e => .error e
      | .ok js => .ok (j :: js)

def validateEntries :
    List ((String ⊕ String) × PyValue) → Except JsonError (List (String × JsonValue))
  | [] => .ok []
  | (.inr typeName, _) :: _ => .error (.keyNotStr typeName)
  | (.inl key, v) :: vs =>
    match validateJsonValue v with
    | .error e => .error e
    | .ok j =>
      match validateEntries vs with
      | .error e => .error e
      | .ok js => .ok ((key, j) :: js)

end

/-- `type(x).__name__` of a validated value. -/
def JsonValue.typeName : JsonValue → String
  | .null => "NoneType"
  | .bool _ => "bool"
  | .int _ => "int"
  | .float _ _ => "float"
  | .str _ => "str"
  | .list _ => "list"
  | .dict _ => "dict"

def snapshotJsonObject (value : PyValue) : Except JsonError JsonObject :=
  match validateJsonValue value with
  | .error e => .error e
  | .ok (.dict items) => .ok items
  | .ok j => .error (.objectExpected j.typeName)

mutual

def JsonValue.toPy : JsonValue → PyValue
  | .null => .none
  | .bool b => .bool b
  | .int i => .int i
  | .float x _ => .float x
  | .str s => .str s
  | .list items => .list (itemsToPy items)
  | .dict items => .dict (entriesToPy items)

def itemsToPy : List JsonValue → List PyValue
  | [] => []
  | j :: js => j.toPy :: itemsToPy js

def entriesToPy : List (String × JsonValue) → List ((String ⊕ String) × PyValue)
  | [] => []
  | (key, j) :: js => (.inl key, j.toPy) :: entriesToPy js

end

mutual

/-- Validating a validated value changes nothing, so a stored document always
passes the validator that loading it runs again. -/
theorem validateJsonValue_toPy (j : JsonValue) : validateJsonValue j.toPy = .ok j := by
  cases j with
  | null => rfl
  | bool b => rfl
  | int i => rfl
  | float x h => simp [JsonValue.toPy, validateJsonValue, h]
  | str s => rfl
  | list items => simp [JsonValue.toPy, validateJsonValue, validateItems_toPy items]
  | dict items => simp [JsonValue.toPy, validateJsonValue, validateEntries_toPy items]

theorem validateItems_toPy (js : List JsonValue) : validateItems (itemsToPy js) = .ok js := by
  cases js with
  | nil => rfl
  | cons j js =>
    simp [itemsToPy, validateItems, validateJsonValue_toPy j, validateItems_toPy js]

theorem validateEntries_toPy (js : List (String × JsonValue)) :
    validateEntries (entriesToPy js) = .ok js := by
  cases js with
  | nil => rfl
  | cons entry js =>
    obtain ⟨key, j⟩ := entry
    simp [entriesToPy, validateEntries, validateJsonValue_toPy j, validateEntries_toPy js]

end

def JsonObject.toPy (object : JsonObject) : PyValue := .dict (entriesToPy object)

@[simp] theorem snapshotJsonObject_toPy (object : JsonObject) :
    snapshotJsonObject (JsonObject.toPy object) = .ok object := by
  simp [snapshotJsonObject, JsonObject.toPy, validateJsonValue, validateEntries_toPy]

end GroundGraph
