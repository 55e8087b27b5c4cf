/-
Module: ImpStack.Json.Fields
Purpose: The two shapes that records and choices have in JSON. A record is an object with a member
  for each field, or an array of its fields in order; a choice is the name of a case without
  content, or an object whose only member names the case and holds its content.
Main exports: Json.members?, Json.field, Json.record?, Json.case?, Json.ofCase
-/
import ImpStack.Json

namespace ImpStack.Json

/-- The members of an object whose keys are all texts. -/
def members? (members : List (List Nat × Json)) : Option (List (String × Json)) :=
  members.mapM fun (key, value) => (text? key).map (·, value)

/-- The value of a member that occurs at most once: nothing if it is repeated. -/
def field (members : List (String × Json)) (name : String) : Option (Option Json) :=
  match members.filter (·.1 == name) with
  | [] => some none
  | [(_, value)] => some (some value)
  | _ => none

/-- The value of a member that occurs exactly once. -/
def required (members : List (String × Json)) (name : String) : Option Json :=
  (field members name).join

/-- What is made of the two fields of a record, which is an object with a member for each field or
    an array of both. Members of other names do not count. -/
def record? {α : Type} (first second : String) (make? : Json → Json → Option α) : Json → Option α
  | object members => do
    let members ← members? members
    make? (← required members first) (← required members second)
  | array [a, b] => make? a b
  | _ => none

/-- The case of a choice and its content, if any is given. -/
def case? : Json → Option (String × Option Json)
  | string codePoints => (text? codePoints).map (·, none)
  | object [(key, value)] => (text? key).map (·, some value)
  | _ => none

/-- Whether the content of a case is none at all: not given, or `null`. -/
def isEmptyContent : Option Json → Bool
  | none | some null => true
  | _ => false

/-- A case with content. -/
def ofCase (name : String) (content : Json) : Json := ofMembers [(name, content)]

end ImpStack.Json
