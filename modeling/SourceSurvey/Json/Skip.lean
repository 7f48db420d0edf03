import SourceSurvey.Json.Numeral
import SourceSurvey.Json.Scalar

/-!
Values that nobody asked for. They are passed over, but they have to be well formed.
-/

namespace SourceSurvey.Json.Reader

mutual

/-- Passes over a value. The number bounds the steps that are left. -/
def skip : Nat → Reader Unit
  | 0 => failHere .endInValue
  | n + 1 => do
    match ← settle with
    | none => failNext .endInValue
    | some 'n' =>
      advance
      letters ['u', 'l', 'l']
    | some 't' =>
      advance
      letters ['r', 'u', 'e']
    | some 'f' =>
      advance
      letters ['a', 'l', 's', 'e']
    | some '"' => skipString
    | some '[' =>
      advance
      skipElements n false
    | some '\x7b' =>
      advance
      skipMembers n false
    | some c =>
      if c == '-' || c.isDigit then
        let _ ← numeral .invalidNumber
      else failNext .expectedValue

/-- Passes over the elements of a list and its end. Behind an element a comma is needed. -/
def skipElements : Nat → Bool → Reader Unit
  | 0, _ => failHere .endInList
  | n + 1, behind => do
    match ← settle with
    | none => failNext .endInList
    | some ']' => advance
    | some c =>
      if behind then
        if c = ',' then advance else failNext .expectedListCommaOrEnd
      skip n
      skipElements n true

/-- Passes over the members of an object and its end. Behind a member a comma is needed. -/
def skipMembers : Nat → Bool → Reader Unit
  | 0, _ => failHere .endInObject
  | n + 1, behind => do
    match ← settle with
    | none => failNext .endInObject
    | some '\x7d' => advance
    | some c =>
      if behind then
        if c = ',' then advance else failNext .expectedObjectCommaOrEnd
      match ← settle with
      | none => failNext .endInObject
      | some '"' => skipString
      | some _ => failNext .keyNotString
      match ← settle with
      | none => failNext .endInObject
      | some ':' => advance
      | some _ => failNext .expectedColon
      skip n
      skipMembers n true

end

/-- Passes over a value of any form. Each step but the first of a bracket takes a character. -/
def skipValue : Reader Unit := do skip (2 * (← get).rest.length + 2)

end SourceSurvey.Json.Reader
