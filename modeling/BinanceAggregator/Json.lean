import Mathlib.Data.Rat.Defs
import BinanceAggregator.Bytes
import BinanceAggregator.Fallible

/-!
JSON values and the accesses the program makes to them.

The library's accesses fail on a missing member and on a value of the wrong type. A failed
access is kept apart from the errors the program reports itself, so that a result free of
failures says that every access was guarded.
-/

namespace BinanceAggregator

/-- A parsed JSON value. Integers that are not negative are unsigned, the others signed; a
member of an object is the first entry under its name. -/
inductive Json
  | null
  | boolean (value : Bool)
  | string (value : Str)
  | numberInteger (value : Int64)
  | numberUnsigned (value : UInt64)
  | numberFloat (value : ℚ)
  | array (items : List Json)
  | object (members : List (Str × Json))

namespace Json

/-- An access that the library answers with an exception or an assertion. -/
inductive AccessError
  | missingMember (field : Str)
  | wrongType

def isObject : Json → Bool
  | .object _ => true
  | _ => false

def isString : Json → Bool
  | .string _ => true
  | _ => false

def isNumberUnsigned : Json → Bool
  | .numberUnsigned _ => true
  | _ => false

def isBoolean : Json → Bool
  | .boolean _ => true
  | _ => false

def isArray : Json → Bool
  | .array _ => true
  | _ => false

def isNumber : Json → Bool
  | .numberInteger _ | .numberUnsigned _ | .numberFloat _ => true
  | _ => false

def find? : Json → Str → Option Json
  | .object members, field => members.lookup field
  | _, _ => none

/-- `contains`: whether the value is an object with the member. -/
def contains (j : Json) (field : Str) : Bool := (j.find? field).isSome

/-- `operator[]` on a constant value. -/
def index (j : Json) (field : Str) : Except AccessError Json :=
  match j.find? field with
  | some value => .ok value
  | none => .error (.missingMember field)

def getString : Json → Except AccessError Str
  | .string value => .ok value
  | _ => .error .wrongType

def getUnsigned : Json → Except AccessError UInt64
  | .numberUnsigned value => .ok value
  | _ => .error .wrongType

def getBoolean : Json → Except AccessError Bool
  | .boolean value => .ok value
  | _ => .error .wrongType

/-- `get<double>()`, of a number of any kind, without rounding. -/
def getDouble : Json → Except AccessError ℚ
  | .numberInteger value => .ok value.toInt
  | .numberUnsigned value => .ok value.toNat
  | .numberFloat value => .ok value
  | _ => .error .wrongType

/-- What a loop over an array goes through. -/
def getItems : Json → Except AccessError (List Json)
  | .array items => .ok items
  | _ => .error .wrongType

/-- `j.contains(field) && test(j[field])`. -/
def fieldIs (j : Json) (field : Str) (test : Json → Bool) : Except AccessError Bool :=
  if j.contains field then do return test (← j.index field) else return false

lemma fieldIs_eq (j : Json) (field : Str) (test : Json → Bool) :
    j.fieldIs field test = .ok ((j.find? field).any test) := by
  unfold fieldIs contains index
  cases j.find? field <;> rfl

lemma index_of_find? {j v : Json} {field : Str} (h : j.find? field = some v) :
    j.index field = .ok v := by
  simp [index, h]

/-- Objects that agree on a member answer alike when it is asked for. -/
lemma index_congr {j k : Json} {field : Str} (h : j.find? field = k.find? field) :
    j.index field = k.index field := by
  rw [index, index, h]

lemma fieldIs_congr {j k : Json} {field : Str} (h : j.find? field = k.find? field)
    (test : Json → Bool) : j.fieldIs field test = k.fieldIs field test := by
  rw [fieldIs_eq, fieldIs_eq, h]

lemma isObject_of_find? {j v : Json} {field : Str} (h : j.find? field = some v) :
    j.isObject = true := by
  cases j with
  | object members => rfl
  | _ => cases h

/-- A member that passed a test is there. -/
lemma exists_of_any {j : Json} {field : Str} {test : Json → Bool}
    (h : (j.find? field).any test = true) : ∃ v, j.find? field = some v ∧ test v = true := by
  cases hf : j.find? field with
  | none => simp [hf] at h
  | some v => exact ⟨v, rfl, by simpa [hf] using h⟩

lemma getString_of_isString {j : Json} (h : j.isString = true) : ∃ s, j.getString = .ok s := by
  cases j <;> simp_all [isString, getString]

lemma getUnsigned_of_isNumberUnsigned {j : Json} (h : j.isNumberUnsigned = true) :
    ∃ n, j.getUnsigned = .ok n := by
  cases j <;> simp_all [isNumberUnsigned, getUnsigned]

lemma getItems_of_isArray {j : Json} (h : j.isArray = true) : ∃ items, j.getItems = .ok items := by
  cases j <;> simp_all [isArray, getItems]

lemma getDouble_of_isNumber {j : Json} (h : j.isNumber = true) : ∃ x, j.getDouble = .ok x := by
  cases j <;> simp_all [isNumber, getDouble]

lemma getBoolean_of_isBoolean {j : Json} (h : j.isBoolean = true) :
    ∃ b, j.getBoolean = .ok b := by
  cases j <;> simp_all [isBoolean, getBoolean]

end Json

end BinanceAggregator
