import Mathlib.Data.List.Basic

namespace Frameleaf.Json

/-!
# Values as they are written in JSON

A value stands for the one text that a serialiser writes for it: fields keep
their order, a number is its shortest text, and two values have the same text
exactly when they are equal.
-/

/-- A value that can be written as JSON. -/
inductive Json where
  | null
  | bool (value : Bool)
  | number (text : String)
  | string (value : String)
  | array (items : List Json)
  | object (fields : List (String × Json))

/-- The fields of an object, in the order in which they were first set. -/
abbrev Fields := List (String × Json)

mutual

/-- Whether two values are written alike. -/
def Json.decEq : (first second : Json) → Decidable (first = second)
  | .null, .null =>
      isTrue rfl
  | .bool first, .bool second =>
      decidable_of_iff (first = second) (by simp)
  | .number first, .number second =>
      decidable_of_iff (first = second) (by simp)
  | .string first, .string second =>
      decidable_of_iff (first = second) (by simp)
  | .array first, .array second =>
      have := Json.decEqItems first second
      decidable_of_iff (first = second) (by simp)
  | .object first, .object second =>
      have := Json.decEqFields first second
      decidable_of_iff (first = second) (by simp)
  | .null, .bool _ | .null, .number _ | .null, .string _
  | .null, .array _ | .null, .object _ => isFalse nofun
  | .bool _, .null | .bool _, .number _ | .bool _, .string _
  | .bool _, .array _ | .bool _, .object _ => isFalse nofun
  | .number _, .null | .number _, .bool _ | .number _, .string _
  | .number _, .array _ | .number _, .object _ => isFalse nofun
  | .string _, .null | .string _, .bool _ | .string _, .number _
  | .string _, .array _ | .string _, .object _ => isFalse nofun
  | .array _, .null | .array _, .bool _ | .array _, .number _
  | .array _, .string _ | .array _, .object _ => isFalse nofun
  | .object _, .null | .object _, .bool _ | .object _, .number _
  | .object _, .string _ | .object _, .array _ => isFalse nofun

/-- Whether two lists of values are written alike. -/
def Json.decEqItems :
    (first second : List Json) → Decidable (first = second)
  | [], [] =>
      isTrue rfl
  | [], _ :: _ | _ :: _, [] =>
      isFalse nofun
  | first :: firsts, second :: seconds =>
      have := Json.decEq first second
      have := Json.decEqItems firsts seconds
      decidable_of_iff (first = second ∧ firsts = seconds) (by simp)

/-- Whether two lists of fields are written alike. -/
def Json.decEqFields :
    (first second : Fields) → Decidable (first = second)
  | [], [] =>
      isTrue rfl
  | [], _ :: _ | _ :: _, [] =>
      isFalse nofun
  | (firstName, first) :: firsts, (secondName, second) :: seconds =>
      have := Json.decEq first second
      have := Json.decEqFields firsts seconds
      decidable_of_iff
        ((firstName = secondName ∧ first = second) ∧ firsts = seconds)
        (by simp)

end

instance : DecidableEq Json := Json.decEq

/-- What a field holds, if it is there. -/
def Fields.get?
    (fields : Fields)
    (name : String) : Option Json :=
  (fields.find? fun field => field.1 == name).map Prod.snd

/-- Set a field where it stands, or at the end when it is new. -/
def Fields.set
    (name : String)
    (value : Json) : Fields → Fields
  | [] => [(name, value)]
  | (other, held) :: rest =>
      if other = name then
        (name, value) :: rest
      else
        (other, held) :: Fields.set name value rest

end Frameleaf.Json
