import GraphQLCall.Json.Numeral
import GraphQLCall.Text.Utf8

/-!
# JSON: reading

The reader is a machine that takes the text one character at a time and keeps the containers it is
inside of.  A text that goes wrong does so at its first character that no JSON text could have at
that place; a text without such a character that stops inside a value ends too early.

* `Fault`   what is wrong with a text
* `Frame`   an open container
* `Place`   what may come next
* `step`   the machine's move on one character
* `parse`   the value that a text spells
-/

namespace GraphQLCall.Json

inductive Fault where
  | truncated
  | malformed
  deriving DecidableEq

/-- **An open container** with what it holds so far: an array's items, last one first; an object
between two entries; an object whose entry `key` lacks its value. -/
inductive Frame where
  | array (items : List Json)
  | object (entries : List (String × Json))
  | member (entries : List (String × Json)) (key : String)

/-- where in an escape a string is: outside of one; behind the backslash; inside the digits of a
code unit; behind a leading surrogate, which needs a trailing one; behind the backslash after it.
The digits are counted in octets, and their value is lost with the first that is no digit. -/
inductive Escape where
  | outside
  | begun
  | unit (high : Option Nat) (value : Option Nat) (left : Nat)
  | surrogate (high : Nat)
  | surrogateBegun (high : Nat)

/-- **What may come next.** -/
inductive Place where
  | value
  | firstItem
  | firstKey
  | nextKey
  | colon
  | afterItem
  | afterEntry
  | finished (result : Json)
  | text (isKey : Bool) (read : List Char) (sound : Bool) (escape : Escape)
  | number (numeral : Numeral)
  | word (rest : List Char) (meaning : Json)

/-- the machine's state: the open containers, innermost first, and the place inside them -/
structure State where
  frames : List Frame
  place : Place

def start : State := ⟨[], .value⟩

def isBlank (c : Char) : Bool := c = ' ' || c = '\n' || c = '\r' || c = '\t'

/-- **A value has been read:** it becomes an item, an entry, or the result. -/
def deliver (value : Json) : List Frame → Except Fault State
  | [] => .ok ⟨[], .finished value⟩
  | .array items :: frames => .ok ⟨.array (value :: items) :: frames, .afterItem⟩
  | .member entries key :: frames =>
    .ok ⟨.object (Entries.insert key value entries) :: frames, .afterEntry⟩
  | .object _ :: _ => .error .malformed

def deliverKey (key : String) : List Frame → Except Fault State
  | .object entries :: frames => .ok ⟨.member entries key :: frames, .colon⟩
  | _ => .error .malformed

def hexValue (c : Char) : Option Nat :=
  if '0' ≤ c ∧ c ≤ '9' then some (c.toNat - '0'.toNat)
  else if 'a' ≤ c ∧ c ≤ 'f' then some (c.toNat - 'a'.toNat + 10)
  else if 'A' ≤ c ∧ c ≤ 'F' then some (c.toNat - 'A'.toNat + 10)
  else none

def escaped (c : Char) : Option Char :=
  match c with
  | '"' => some '"'
  | '\\' => some '\\'
  | '/' => some '/'
  | 'b' => some '\x08'
  | 'f' => some '\x0c'
  | 'n' => some '\n'
  | 'r' => some '\r'
  | 't' => some '\t'
  | _ => none

/-- a whole code unit has been read, behind the leading surrogate `high` if there was one -/
def deliverUnit (isKey : Bool) (read : List Char) (sound : Bool) (high : Option Nat) (unit : Nat)
    (frames : List Frame) : Except Fault State :=
  match high with
  | none =>
    if 0xDC00 ≤ unit ∧ unit ≤ 0xDFFF then .error .malformed
    else if 0xD800 ≤ unit ∧ unit ≤ 0xDBFF then
      .ok ⟨frames, .text isKey read sound (.surrogate unit)⟩
    else .ok ⟨frames, .text isKey (Char.ofNat unit :: read) sound .outside⟩
  | some high =>
    if 0xDC00 ≤ unit ∧ unit ≤ 0xDFFF then
      let code := 0x10000 + (high - 0xD800) * 0x400 + (unit - 0xDC00)
      .ok ⟨frames, .text isKey (Char.ofNat code :: read) sound .outside⟩
    else .error .malformed

/-- one character of a code unit; the unit ends with its fourth octet, whatever the octets are -/
def stepUnit (isKey : Bool) (read : List Char) (sound : Bool) (high : Option Nat)
    (value : Option Nat) (left : Nat) (c : Option Char) (frames : List Frame) :
    Except Fault State :=
  let value := do
    let v ← value
    let d ← c.bind hexValue
    some (v * 16 + d)
  let left := left - Utf8.width c
  if left = 0 then
    match value with
    | some unit => deliverUnit isKey read sound high unit frames
    | none => .error .malformed
  else .ok ⟨frames, .text isKey read sound (.unit high value left)⟩

def stepText (isKey : Bool) (read : List Char) (sound : Bool) (escape : Escape) (c : Option Char)
    (frames : List Frame) : Except Fault State :=
  match escape with
  | .outside =>
    match c with
    | some '"' =>
      if sound then
        let s := String.ofList read.reverse
        if isKey then deliverKey s frames else deliver (.str s) frames
      else .error .malformed
    | some '\\' => .ok ⟨frames, .text isKey read sound .begun⟩
    | some c =>
      if c.toNat < 0x20 then .error .malformed
      else .ok ⟨frames, .text isKey (c :: read) sound .outside⟩
    | none => .ok ⟨frames, .text isKey read false .outside⟩
  | .begun =>
    match c with
    | some 'u' => .ok ⟨frames, .text isKey read sound (.unit none (some 0) 4)⟩
    | some c =>
      match escaped c with
      | some e => .ok ⟨frames, .text isKey (e :: read) sound .outside⟩
      | none => .error .malformed
    | none => .error .malformed
  | .unit high value left => stepUnit isKey read sound high value left c frames
  | .surrogate high =>
    if c = some '\\' then .ok ⟨frames, .text isKey read sound (.surrogateBegun high)⟩
    else .error .malformed
  | .surrogateBegun high =>
    if c = some 'u' then .ok ⟨frames, .text isKey read sound (.unit (some high) (some 0) 4)⟩
    else .error .malformed

/-- the places behind a value, where it can only be followed or its container closed -/
def stepAfter (state : State) (c : Char) : Except Fault State :=
  if isBlank c then .ok state
  else
    match state.place, state.frames with
    | .afterItem, .array items :: frames =>
      if c = ',' then .ok ⟨.array items :: frames, .value⟩
      else if c = ']' then deliver (.arr items.reverse) frames
      else .error .malformed
    | .afterEntry, .object entries :: frames =>
      if c = ',' then .ok ⟨.object entries :: frames, .nextKey⟩
      else if c = '}' then deliver (.obj entries) frames
      else .error .malformed
    | _, _ => .error .malformed

def deliverNumber (n : Numeral) (frames : List Frame) : Except Fault State :=
  if n.part.isEnd then
    match n.value? with
    | some value => deliver value frames
    | none => .error .malformed
  else .error .malformed

/-- a container opens, unless `limit` are open already -/
def openFrame (limit : Nat) (frame : Frame) (place : Place) (frames : List Frame) :
    Except Fault State :=
  if frames.length < limit then .ok ⟨frame :: frames, place⟩ else .error .malformed

/-- the first character of a value -/
def stepValue (limit : Nat) (frames : List Frame) (c : Char) : Except Fault State :=
  match c with
  | '"' => .ok ⟨frames, .text false [] true .outside⟩
  | '[' => openFrame limit (.array []) .firstItem frames
  | '{' => openFrame limit (.object []) .firstKey frames
  | '-' => .ok ⟨frames, .number (.first true .minus 0)⟩
  | '0' => .ok ⟨frames, .number (.first false .zero 0)⟩
  | 't' => .ok ⟨frames, .word ['r', 'u', 'e'] (.bool true)⟩
  | 'f' => .ok ⟨frames, .word ['a', 'l', 's', 'e'] (.bool false)⟩
  | 'n' => .ok ⟨frames, .word ['u', 'l', 'l'] .null⟩
  | _ =>
    if c.isDigit then .ok ⟨frames, .number (.first false .whole (.ofNat (c.toNat - '0'.toNat)))⟩
    else .error .malformed

/-- **The machine's move on one character,** `none` being an octet that belongs to no character. -/
def step (limit : Nat) (state : State) (c : Option Char) : Except Fault State :=
  match state.place, c with
  | .text isKey read sound escape, c => stepText isKey read sound escape c state.frames
  | _, none => .error .malformed
  | .value, some c => if isBlank c then .ok state else stepValue limit state.frames c
  | .firstItem, some c =>
    if isBlank c then .ok state
    else if c = ']' then
      match state.frames with
      | .array _ :: frames => deliver (.arr []) frames
      | _ => .error .malformed
    else stepValue limit state.frames c
  | .firstKey, some c =>
    if isBlank c then .ok state
    else if c = '"' then .ok ⟨state.frames, .text true [] true .outside⟩
    else if c = '}' then
      match state.frames with
      | .object _ :: frames => deliver (.obj []) frames
      | _ => .error .malformed
    else .error .malformed
  | .nextKey, some c =>
    if isBlank c then .ok state
    else if c = '"' then .ok ⟨state.frames, .text true [] true .outside⟩
    else .error .malformed
  | .colon, some c =>
    if isBlank c then .ok state
    else if c = ':' then .ok ⟨state.frames, .value⟩
    else .error .malformed
  | .word rest meaning, some c =>
    match rest with
    | [] => .error .malformed
    | [last] => if c = last then deliver meaning state.frames else .error .malformed
    | next :: rest => if c = next then .ok ⟨state.frames, .word rest meaning⟩ else .error .malformed
  | .number n, some c =>
    match n.extend? c with
    | some n => .ok ⟨state.frames, .number n⟩
    | none => do
      let after ← deliverNumber n state.frames
      stepAfter after c
  | .afterItem, some c | .afterEntry, some c | .finished _, some c => stepAfter state c

def run (limit : Nat) (state : State) : List (Option Char) → Except Fault State
  | [] => .ok state
  | c :: rest =>
    match step limit state c with
    | .ok next => run limit next rest
    | .error fault => .error fault

/-- what the text has spelled if it ends here -/
def result (state : State) : Except Fault Json :=
  match state.place with
  | .finished value => .ok value
  | .number n =>
    if n.part.isEnd then
      match n.value?, state.frames with
      | some value, [] => .ok value
      | some _, _ => .error .truncated
      | none, _ => .error .malformed
    else .error .truncated
  | _ => .error .truncated

def depthLimit : Nat := 127

/-- **The value that a text spells,** with at most `limit` containers inside one another. -/
def parseWithin (limit : Nat) (text : List (Option Char)) : Except Fault Json :=
  match run limit start text with
  | .ok state => result state
  | .error fault => .error fault

def parse (octets : List UInt8) : Except Fault Json :=
  parseWithin depthLimit (Utf8.characters octets)

end GraphQLCall.Json
