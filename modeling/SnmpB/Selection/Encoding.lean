import SnmpB.Agent.Pdu

/-! # Encoding a typed value

The texts of the value field are read by the conversions of `QString` and by the
constructors of the SNMP library. A text a conversion cannot read stands for 0.
-/
namespace SnmpB.Selection
open Agent

/-- Tables of the platform: the classes of `QChar`, the text a C string is decoded to, the address a
text denotes for `IpAddress`, which may ask a name service, and the C strings read through a pointer
into a destroyed array: when a loop compares it, and when `arg` prints it after another allocation. -/
structure Platform where
  isSpace : Char → Bool
  isDigit : Char → Bool
  fromUtf8 : List Char → String
  fromUtf8_ascii : ∀ cs, (∀ c ∈ cs, c.toNat < 128) → fromUtf8 cs = String.ofList cs
  ipAddress : List Char → Option (List ℕ)
  freed : List Char → List Char × List Char

/-- The memory still holds the array, both times. -/
def Platform.Keeps (p : Platform) (array : List Char) : Prop := p.freed array = (array, array)

def digitsValue (digits : List Char) : ℕ := digits.foldl (fun n c => n * 10 + (c.toNat - '0'.toNat)) 0

/-- A number in base 10, with spaces around it. Unsigned conversions refuse a minus. -/
def parseNumber (p : Platform) (signed : Bool) (text : String) : Option ℤ :=
  let trimmed := ((text.toList.dropWhile p.isSpace).reverse.dropWhile p.isSpace).reverse
  let number (digits : List Char) : Option ℤ :=
    if digits ≠ [] ∧ digits.all Char.isDigit then some (digitsValue digits) else none
  match trimmed with
  | '-' :: digits => if signed then (number digits).map (-·) else none
  | '+' :: digits => number digits
  | digits => number digits

def inRange (lo hi : ℤ) (n : Option ℤ) : Option ℤ := n.filter fun n => decide (lo ≤ n ∧ n ≤ hi)

def toInt (p : Platform) (text : String) : Option ℤ :=
  inRange (-2 ^ 31) (2 ^ 31 - 1) (parseNumber p true text)

def toLong (p : Platform) (text : String) : Option ℤ :=
  inRange (-2 ^ 63) (2 ^ 63 - 1) (parseNumber p true text)

def toUInt (p : Platform) (text : String) : Option ℕ :=
  (inRange 0 (2 ^ 32 - 1) (parseNumber p false text)).map Int.toNat

/-- `toULong` and `toULongLong`. -/
def toULong (p : Platform) (text : String) : Option ℕ :=
  (inRange 0 (2 ^ 64 - 1) (parseNumber p false text)).map Int.toNat

/-- A sign and a bounded number of digits: `\-?\d{0,n}`. -/
def digitPattern (p : Platform) (n : ℕ) (text : String) : Bool :=
  let digits := if text.toList.head? = some '-' then text.toList.tail else text.toList
  digits.all p.isDigit && decide (digits.length ≤ n)

inductive Validator
  | int (isUnsigned : Bool)
  | uint64
  deriving DecidableEq, Repr

/-- Whether `validate` returns `Acceptable`. What the pattern does not match is invalid, since
every beginning of a match is itself a match. -/
def Validator.accepts (p : Platform) (text : String) : Validator → Bool
  | .int true => digitPattern p 10 text && ((toUInt p text).isSome || text.length == 0)
  | .int false => digitPattern p 10 text && ((toInt p text).isSome || text.length == 0 || text.length == 1)
  | .uint64 => digitPattern p 20 text && ((toULong p text).isSome || text.length == 0)

/-- What OK makes of a text: a value for the varbind, a message to the user, or nothing. -/
inductive Encoded
  | value (v : Value)
  | message (text : String)
  | unchanged
  deriving DecidableEq

def bytesOf (text : String) : List ℕ := (toLatin1 text).map Char.toNat

/-- The switch of `OKButtonPressed`. -/
def encode (p : Platform) (text : String) : SnmpSyntax → Encoded
  | .int32 => .value (.int32 ((toLong p text).getD 0))
  | .cntr32 => .value (.cntr32 ((toULong p text).getD 0))
  | .gauge32 => .value (.gauge32 ((toULong p text).getD 0))
  | .octets | .bits => .value (.octets (bytesOf text))
  | .opaqueStr => .value (.opaqueStr (bytesOf text))
  | .oid =>
    if Oid.ofText text ≠ [] then .value (.oid (Oid.ofText text))
    else if text = "" then .value (.oid [0])
    else .message "Invalid Object Identifier value"
  | .cntr64 => .value (.cntr64 ((toULong p text).getD 0))
  | .timeticks => .value (.timeticks ((toUInt p text).getD 0))
  | .ipaddr =>
    match p.ipAddress (toLatin1 text) with
    | some bytes => .value (.ipaddr bytes)
    | none => if text = "" then .value (.ipaddr []) else .message "Invalid IP address value"
  | _ => .unchanged

def syntaxName : SnmpSyntax → Option String
  | .int32 => some "INTEGER32"
  | .cntr32 => some "COUNTER32"
  | .gauge32 => some "GAUGE32"
  | .octets => some "OCTET STRING"
  | .bits => some "BITS"
  | .opaqueStr => some "OPAQUE"
  | .oid => some "OBJECT IDENTIFIER"
  | .cntr64 => some "COUNTER64"
  | .timeticks => some "TIMETICKS"
  | .ipaddr => some "IP ADDRESS"
  | _ => none

/-- The entries of the syntax box, `UInteger32` being the same constant as `Gauge32`. -/
def syntaxItems : List SnmpSyntax :=
  [.int32, .gauge32, .cntr32, .gauge32, .octets, .bits, .oid, .cntr64, .timeticks, .ipaddr, .opaqueStr]

theorem encode_ne_unchanged (p : Platform) (text : String) {st : SnmpSyntax} (h : st ∈ syntaxItems) :
    encode p text st ≠ .unchanged := by
  simp only [syntaxItems, List.mem_cons, List.not_mem_nil, or_false] at h
  rcases h with rfl | rfl | rfl | rfl | rfl | rfl | rfl | rfl | rfl | rfl | rfl <;>
    simp only [encode, ne_eq, reduceCtorEq, not_false_eq_true]
  · split
    · simp
    · split <;> simp
  · split
    · simp
    · split <;> simp

end SnmpB.Selection
