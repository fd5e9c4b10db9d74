import SnmpB.Oid.Basic

/-! # Variable bindings and PDUs

The values a variable binding carries, with the SNMPv2 exceptions among them,
and the PDU fields the callbacks look at.
-/
namespace SnmpB.Agent

/-- The `sNMP_SYNTAX_` constants; `UINT32` is the same constant as `GAUGE32`. -/
inductive SnmpSyntax
  | null | int32 | cntr32 | gauge32 | timeticks | cntr64 | octets | bits | opaqueStr | oid | ipaddr
  | noSuchObject | noSuchInstance | endOfMibView
  deriving DecidableEq, Repr

inductive Value
  | null
  | int32 (v : ℤ)
  | cntr32 (v : ℕ)
  | gauge32 (v : ℕ)
  | timeticks (v : ℕ)
  | cntr64 (v : ℕ)
  | octets (bytes : List ℕ)
  | opaqueStr (bytes : List ℕ)
  | oid (v : Oid)
  | ipaddr (bytes : List ℕ)
  | noSuchObject
  | noSuchInstance
  | endOfMibView
  deriving DecidableEq, Repr

def Value.getSyntax : Value → SnmpSyntax
  | .null => .null
  | .int32 _ => .int32
  | .cntr32 _ => .cntr32
  | .gauge32 _ => .gauge32
  | .timeticks _ => .timeticks
  | .cntr64 _ => .cntr64
  | .octets _ => .octets
  | .opaqueStr _ => .opaqueStr
  | .oid _ => .oid
  | .ipaddr _ => .ipaddr
  | .noSuchObject => .noSuchObject
  | .noSuchInstance => .noSuchInstance
  | .endOfMibView => .endOfMibView

structure Vb where
  oid : Oid
  value : Value
  deriving DecidableEq, Repr

def Vb.empty : Vb := ⟨[], .null⟩

/-- `vb.get_value(val_oid)`: an OID of any other syntax stays empty. -/
def Vb.getOidValue (vb : Vb) : Oid :=
  match vb.value with
  | .oid v => v
  | _ => []

/-- There is no value object, as for the exceptions. -/
def Value.isNull : Value → Bool
  | .null | .noSuchObject | .noSuchInstance | .endOfMibView => true
  | _ => false

/-- `get_value(unsigned long &)`. -/
def Value.getUnsignedLong : Value → Option ℕ
  | .cntr32 n | .gauge32 n | .timeticks n => some n
  | _ => none

/-- `get_value(long &)`. -/
def Value.getLong : Value → Option ℤ
  | .int32 v => some v
  | _ => none

/-- A `long` read through the unsigned member of a union. -/
def asUnsigned (v : ℤ) : ℕ := (v % 2 ^ 64).toNat

/-- `get_value(SnmpSyntax &)` into a `Counter64`, which maps every 32 bit number and assigns zero from
anything else; a `Counter64` is always valid, so only a missing value is refused. -/
def Value.getCounter64 : Value → Option ℕ
  | .cntr64 n | .cntr32 n | .gauge32 n | .timeticks n => some n
  | .int32 v => some (asUnsigned v)
  | .octets _ | .opaqueStr _ | .oid _ | .ipaddr _ => some 0
  | .null | .noSuchObject | .noSuchInstance | .endOfMibView => none

theorem Value.getCounter64_eq_none_iff (value : Value) : value.getCounter64 = none ↔ value.isNull = true := by
  cases value <;> simp [Value.getCounter64, Value.isNull]

structure Pdu where
  vblist : List Vb
  errorStatus : ℕ
  errorIndex : ℤ
  deriving DecidableEq, Repr

/-- `pdu.get_vb(vb, index)` leaves the varbind as it was when there is none at the index. -/
def Pdu.getVb (pdu : Pdu) (vb : Vb) (index : ℕ) : Vb := (pdu.vblist[index]?).getD vb

def noSuchName : ℕ := 2

end SnmpB.Agent
