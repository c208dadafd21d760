import Mathlib.Data.Rat.Defs
import Mathlib.Algebra.Group.Nat.Even

/-! Close codes and JSON values shared by the signal connection and the peers.
Values are those of the JSON library; the rtc helpers that look into values and
convert them are a parameter. -/

namespace PeerApi

inductive CloseCode where
  | normal
  | goingAway
  | abnormal
  | protocolError
  | signalError
  deriving DecidableEq, Repr

inductive Json where
  | null
  | bool (b : Bool)
  | int (n : Int)
  | real (q : ℚ)
  | str (s : String)
  | arr (items : List Json)
  | obj (members : List (String × Json))

/-- The rtc JSON helpers and `size()`; `none` is a value of false. The code relies on
finding the members of an object and the items of an array, and on finding no items
elsewhere. -/
structure RtcJson where
  getValueFromJsonObject : Json → String → Option Json
  getValueFromJsonArray : Json → ℕ → Option Json
  size : Json → ℕ
  getStringFromJson : Json → Option String
  getBoolFromJson : Json → Option Bool
  getIntFromJson : Json → Option Int
  object_value : ∀ members key, getValueFromJsonObject (.obj members) key = members.lookup key
  array_value : ∀ items i, getValueFromJsonArray (.arr items) i = items[i]?
  array_size : ∀ items, size (.arr items) = items.length
  other_value : ∀ value i, (∀ items, value ≠ .arr items) → getValueFromJsonArray value i = none

namespace RtcJson

variable (rtc : RtcJson)

def getStringFromJsonObject (data : Json) (key : String) : Option String :=
  (rtc.getValueFromJsonObject data key).bind rtc.getStringFromJson

def getBoolFromJsonObject (data : Json) (key : String) : Option Bool :=
  (rtc.getValueFromJsonObject data key).bind rtc.getBoolFromJson

def getIntFromJsonObject (data : Json) (key : String) : Option Int :=
  (rtc.getValueFromJsonObject data key).bind rtc.getIntFromJson

/-- What a loop over `size()` finds at the indices below it. -/
def items (value : Json) : List (Option Json) :=
  (List.range (rtc.size value)).map (rtc.getValueFromJsonArray value)

theorem items_arr (items : List Json) : rtc.items (.arr items) = items.map some := by
  apply List.ext_getElem?
  intro i
  simp only [RtcJson.items, rtc.array_size, List.getElem?_map]
  by_cases hi : i < items.length
  · rw [List.getElem?_range hi, Option.map_some, rtc.array_value, List.getElem?_eq_getElem hi,
      Option.map_some]
  · rw [List.getElem?_eq_none (by simpa using hi), List.getElem?_eq_none (by simpa using hi)]
    rfl

theorem items_other {value : Json} (h : ∀ items, value ≠ .arr items) :
    rtc.items value = List.replicate (rtc.size value) none := by
  rw [RtcJson.items, List.map_congr_left fun i _ => rtc.other_value value i h, List.map_const',
    List.length_range]

end RtcJson

/-- Helpers that accept only a value of the requested kind. -/
def RtcJson.exact : RtcJson where
  getValueFromJsonObject
    | .obj members, key => members.lookup key
    | _, _ => none
  getValueFromJsonArray
    | .arr items, i => items[i]?
    | _, _ => none
  size
    | .arr items => items.length
    | .obj members => members.length
    | _ => 0
  getStringFromJson
    | .str s => some s
    | _ => none
  getBoolFromJson
    | .bool b => some b
    | _ => none
  getIntFromJson
    | .int n => some n
    | _ => none
  object_value _ _ := rfl
  array_value _ _ := rfl
  array_size _ := rfl
  other_value value i h := by
    cases value with
    | arr items => exact absurd rfl (h items)
    | _ => rfl

end PeerApi
