import EntityLang.Number.Basic

/-!
# JSON values

Objects keep their fields in the order given. `Json.record` puts fields in the order of their keys.
-/

namespace EntityLang

/-- A JSON value. -/
inductive Json where
  | null
  | bool (b : Bool)
  | int (i : Int)
  | number (x : Number)
  | string (s : String)
  | array (items : List Json)
  | object (fields : List (String × Json))

namespace Json

instance : Inhabited Json := ⟨.null⟩

/-- Put a field before the first field of a greater key. -/
def insertField (key : String) (value : Json) : List (String × Json) → List (String × Json)
  | [] => [(key, value)]
  | (k, v) :: rest =>
    if key < k then (key, value) :: (k, v) :: rest else (k, v) :: insertField key value rest

/-- An object whose fields are in the order of their keys. -/
def record (fields : List (String × Json)) : Json :=
  .object (fields.foldr (fun (k, v) sorted => insertField k v sorted) [])

/-- A natural number. -/
def nat (n : Nat) : Json := .int n

/-- A number, or null when it is infinite or not a number. -/
def ofNumber (x : Number) : Json := if x.isFinite then .number x else .null

/-- The value, or null when there is none. -/
def orNull : Option Json → Json
  | some j => j
  | none => .null

end Json

end EntityLang
