import Mathlib.Tactic.Common
/-!
# Js — the strings of JavaScript

A string is a list of 16-bit units.  `split`, `toLowerCase`, `parseInt` and the two regular expressions of `http.coffee`
are the parts of the language `http.coffee` uses; `V8` is what it uses of the engine, the conversions from and to UTF-8.
-/
namespace V8h

abbrev JsString := List UInt16

/-- A string literal of the source. -/
def js (s : String) : JsString := s.toList.map fun c => UInt16.ofNat c.toNat

/-- The engine's conversions: `String::WriteUtf8` of a whole string, and `String::New` of bytes.  ASCII is written as it
is. -/
class V8 where
  utf8       : JsString → List UInt8
  fromUtf8   : List UInt8 → JsString
  utf8_ascii : ∀ s : JsString, (∀ u ∈ s, u < 128) → utf8 s = s.map UInt16.toUInt8

/-- Strings with one byte a unit: ASCII texts are encoded and decoded as the engine does. -/
abbrev ascii : V8 where
  utf8 text      := text.map UInt16.toUInt8
  fromUtf8 data  := data.map UInt8.toUInt16
  utf8_ascii _ _ := rfl

namespace JsString

/-- `split` at a non-empty separator: `skip` units of a separator are still to be passed, `piece` is the
piece so far. -/
def splitFrom (sep : JsString) : JsString → Nat → JsString → List JsString
  | [],     _,        piece => [piece]
  | _ :: s, skip + 1, piece => splitFrom sep s skip piece
  | u :: s, 0,        piece =>
    if sep.isPrefixOf (u :: s) then piece :: splitFrom sep s (sep.length - 1) [] else splitFrom sep s 0 (piece ++ [u])

/-- `text.split sep`. -/
def split (text sep : JsString) : List JsString := splitFrom sep text 0 []

/-- `text.split sep, limit`: the pieces after the first `limit` are dropped. -/
def splitLimit (text sep : JsString) (limit : Nat) : List JsString := (split text sep).take limit

/-- One unit of `toLowerCase` as far as ASCII letters come out: of the other units only KELVIN SIGN gives one. -/
def lowerUnit (u : UInt16) : UInt16 :=
  if 65 ≤ u ∧ u ≤ 90 then u + 32 else if u = 0x212A then 107 else u

def toLowerCase (s : JsString) : JsString := s.map lowerUnit

/-- The white space and line terminators `parseInt` skips. -/
def isSpace (u : UInt16) : Bool :=
  u ∈ [9, 10, 11, 12, 13, 32, 0xA0, 0x1680, 0x180E, 0x2028, 0x2029, 0x202F, 0x205F, 0x3000, 0xFEFF] ||
    decide (0x2000 ≤ u ∧ u ≤ 0x200A)

def digitOf (u : UInt16) : Option Nat :=
  if 48 ≤ u ∧ u ≤ 57 then some (u.toNat - 48)
  else if 97 ≤ lowerUnit u ∧ lowerUnit u ≤ 122 ∧ u < 128 then some ((lowerUnit u).toNat - 87)
  else none

/-- The longest run of digits of a radix, and the number it spells; `none` when there is none. -/
def digits (radix : Nat) : JsString → Option Nat → Option Nat
  | [],     n => n
  | u :: s, n =>
    match digitOf u with
    | some d => if d < radix then digits radix s (some (n.getD 0 * radix + d)) else n
    | none   => n

def parseDigits (s : JsString) : Option Nat :=
  match s with
  | 48 :: x :: s' => if x = 120 ∨ x = 88 then digits 16 s' none else digits 10 s none
  | _             => digits 10 s none

/-- `parseInt s`, `none` for `NaN`; a whole number beyond 2^53 is not rounded. -/
def parseInt (s : JsString) : Option Int :=
  match s.dropWhile isSpace with
  | 45 :: s => (parseDigits s).map fun n => -(n : Int)
  | 43 :: s => (parseDigits s).map Int.ofNat
  | s       => (parseDigits s).map Int.ofNat

/-- `/^multipart\/form-data/`. -/
def isMultipart (s : JsString) : Bool := (js "multipart/form-data").isPrefixOf s

def isLineTerminator (u : UInt16) : Bool := u ∈ [10, 13, 0x2028, 0x2029]

/-- The group of `/boundary=(.*)/`. -/
def boundaryOf : JsString → Option JsString
  | []     => none
  | u :: s =>
    if (js "boundary=").isPrefixOf (u :: s) then some (((u :: s).drop 9).takeWhile fun v => !isLineTerminator v)
    else boundaryOf s

end JsString

/-! ## `Helper.parseHeader` -/

/-- An object used as a table of strings, in the order the keys were first set. -/
abbrev Header := List (JsString × JsString)

namespace Header

def get (h : Header) (key : JsString) : Option JsString := List.lookup key h

/-- `header[key] = value`: setting `__proto__` to a string does nothing. -/
def set (h : Header) (key value : JsString) : Header :=
  if key = js "__proto__" then h
  else if (h.get key).isSome then h.map fun (k, v) => (k, if k = key then value else v)
  else h ++ [(key, value)]

end Header

/-- What `parseHeader` returns. -/
structure Request where
  method     : Option JsString
  requestUri : Option JsString
  header     : Header
deriving DecidableEq

namespace Helper

/-- The body of the loop: a line with no `": "` is skipped. -/
def addField (header : Header) (field : JsString) : Header :=
  match field.splitLimit (js ": ") 2 with
  | [key, value] => header.set key value
  | _            => header

/-- `Helper.parseHeader`. -/
def parseHeader (text : JsString) : Request :=
  let fields := text.split (js "\r\n")
  let request := (fields.headD []).splitLimit (js " ") 3
  ⟨request[0]?, request[1]?, fields.tail.foldl addField []⟩

end Helper
end V8h
