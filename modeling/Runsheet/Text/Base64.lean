/-!
# Base 64

Three bytes are written as four digits of six bits each; a last group of one or two bytes is
padded with equals signs.  Decoding reads exactly the padded texts whose unused bits are zero, so
each sequence of bytes has one written form.
-/

namespace Runsheet.Text.Base64

/-- The sixty-four digits, in the order of their values. -/
def alphabet : List Char :=
  "ABCDEFGHIJKLMNOPQRSTUVWXYZabcdefghijklmnopqrstuvwxyz0123456789+/".toList

/-- The digit of a value below sixty-four. -/
def digit (n : Nat) : Char :=
  alphabet.getD n 'A'

/-- The value of a digit. -/
def value? (c : Char) : Option Nat :=
  let n := c.toNat
  if 65 ≤ n && n ≤ 90 then some (n - 65)
  else if 97 ≤ n && n ≤ 122 then some (n - 71)
  else if 48 ≤ n && n ≤ 57 then some (n + 4)
  else if c = '+' then some 62
  else if c = '/' then some 63
  else none

/-- The written form of a sequence of bytes. -/
def encode : List UInt8 → List Char
  | [] => []
  | [a] => [digit (a.toNat / 4), digit (a.toNat % 4 * 16), '=', '=']
  | [a, b] =>
    [digit (a.toNat / 4), digit (a.toNat % 4 * 16 + b.toNat / 16), digit (b.toNat % 16 * 4), '=']
  | a :: b :: c :: rest =>
    digit (a.toNat / 4) :: digit (a.toNat % 4 * 16 + b.toNat / 16) ::
      digit (b.toNat % 16 * 4 + c.toNat / 64) :: digit (c.toNat % 64) :: encode rest

/-- The one byte of a last group with two equals signs. -/
def lastOne (w x : Nat) : Option (List UInt8) :=
  if x % 16 = 0 then some [UInt8.ofNat (w * 4 + x / 16)] else none

/-- The two bytes of a last group with one equals sign. -/
def lastTwo (w x y : Nat) : Option (List UInt8) :=
  if y % 4 = 0 then
    some [UInt8.ofNat (w * 4 + x / 16), UInt8.ofNat (x % 16 * 16 + y / 4)]
  else none

/-- The three bytes of a full group. -/
def fullGroup (w x y z : Nat) : List UInt8 :=
  [UInt8.ofNat (w * 4 + x / 16), UInt8.ofNat (x % 16 * 16 + y / 4), UInt8.ofNat (y % 4 * 64 + z)]

/-- The bytes that a text stands for, if it is the written form of any. -/
def decode : List Char → Option (List UInt8)
  | [] => some []
  | [w, x, '=', '='] => do lastOne (← value? w) (← value? x)
  | [w, x, y, '='] => do lastTwo (← value? w) (← value? x) (← value? y)
  | w :: x :: y :: z :: rest => do
    let group := fullGroup (← value? w) (← value? x) (← value? y) (← value? z)
    let others ← decode rest
    some (group ++ others)
  | _ => none

/-- The base-64 form of the UTF-8 bytes of a string. -/
def encodeString (s : String) : String :=
  String.ofList (encode s.toUTF8.data.toList)

/-- The string whose UTF-8 bytes a base-64 text stands for. -/
def decodeString (s : String) : Option String := do
  let bytes ← decode s.toList
  String.fromUTF8? ⟨bytes.toArray⟩

end Runsheet.Text.Base64
