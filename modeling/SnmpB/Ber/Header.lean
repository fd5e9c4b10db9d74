import SnmpB.Library.Framing
import SnmpB.Library.Octets

/-! # Types and lengths on the wire

An object is its type, its length and its content. The pointer into a message is the list
of the bytes from there to the end of the memory; a parser that would read behind it, or
that returns NULL, gives none.
-/
namespace SnmpB.Ber
open Framing Octets

abbrev Byte := BitVec 8
abbrev Cursor := Framing.Cursor Byte

/-- A cast to `unsigned char`. -/
def uchar (n : ℕ) : Byte := BitVec.ofNat 8 n

def asnInteger : Byte := 0x02
def asnOctetStr : Byte := 0x04
def asnNull : Byte := 0x05
def asnObjectId : Byte := 0x06
def asnSeqCon : Byte := 0x30
def smiIpAddress : Byte := 0x40
def smiCounter : Byte := 0x41
def smiGauge : Byte := 0x42
def smiTimeTicks : Byte := 0x43
def smiOpaque : Byte := 0x44
def smiNsap : Byte := 0x45
def smiCounter64 : Byte := 0x46
def smiUInteger : Byte := 0x47
def snmpNoSuchObject : Byte := 0x80
def snmpNoSuchInstance : Byte := 0x81
def snmpEndOfMibView : Byte := 0x82

def asnLongLen : Byte := 0x80
def asnExtensionId : Byte := 0x1F

/-! ## Lengths -/

/-- `asn_parse_length`. -/
def asnParseLength : List Byte → Option (ℕ × List Byte)
  | [] => none
  | lengthbyte :: data =>
    if lengthbyte &&& asnLongLen ≠ 0 then
      let lengthbyte := (lengthbyte &&& ~~~asnLongLen).toNat
      if lengthbyte = 0 then none
      else if lengthbyte > 4 then none
      else do
        let (bytes, data) ← takeBytes lengthbyte data
        let length := bytes.foldl (fun length b => (length <<< 8) + b.toNat) 0
        if length > 0x80000000 then none else some (length, data)
    else some (lengthbyte.toNat, data)

/-- `asn_build_length`; every branch asks for the room it needs. -/
def asnBuildLength (length : ℕ) : Writer Byte :=
  if length < 0x80 then put [uchar length]
  else if length ≤ 0xFF then put [0x01 ||| asnLongLen, uchar length]
  else if length ≤ 0xFFFF then put [0x02 ||| asnLongLen, uchar ((length >>> 8) &&& 0xFF), uchar (length &&& 0xFF)]
  else if length ≤ 0xFFFFFF then
    put [0x03 ||| asnLongLen, uchar ((length >>> 16) &&& 0xFF), uchar ((length >>> 8) &&& 0xFF),
      uchar (length &&& 0xFF)]
  else
    put [0x04 ||| asnLongLen, uchar ((length >>> 24) &&& 0xFF), uchar ((length >>> 16) &&& 0xFF),
      uchar ((length >>> 8) &&& 0xFF), uchar (length &&& 0xFF)]

/-! ## Headers -/

/-- `asn_build_header`. -/
def asnBuildHeader (type : Byte) (length : ℕ) : Writer Byte := andThen (put [type]) (asnBuildLength length)

/-- `asn_build_sequence`. -/
def asnBuildSequence (type : Byte) (length : ℕ) : Writer Byte := fun datalength =>
  if datalength < 2 then none else asnBuildHeader type length datalength

/-- `asn_parse_header`: what is valid afterwards is the content. -/
def asnParseHeader (c : Cursor) : Option (Byte × Cursor) :=
  match c.data with
  | [] => none
  | type :: data =>
    if type &&& asnExtensionId = asnExtensionId then none
    else do
      let (asnLength, bufp) ← asnParseLength data
      let headerLen := c.data.length - bufp.length
      if headerLen + asnLength > c.valid then none else some (type, ⟨bufp, asnLength⟩)

/-- How the parsers of values begin: the type is looked for, and the message must hold the content. -/
def asnParseContent (types : List Byte) (c : Cursor) : Option ((Byte × ℕ) × Cursor) :=
  match c.data with
  | [] => none
  | type :: data =>
    if type ∉ types then none
    else do
      let (asnLength, bufp) ← asnParseLength data
      let taken := asnLength + (c.data.length - bufp.length)
      if taken > c.valid then none else some ((type, asnLength), ⟨bufp, c.valid - taken⟩)

/-! ## What is written -/

/-- The octets of a length: itself, or how many octets it has and these. -/
def lengthOctets (length : ℕ) : List Byte :=
  if length < 128 then octetsOf 1 length
  else
    let count := Nat.log 256 length + 1
    uchar (128 + count) :: octetsOf count length

/-- An object as it stands in a message. -/
def tlv (type : Byte) (content : List Byte) : List Byte := type :: (lengthOctets content.length ++ content)

def maxLength : ℕ := 0x80000000

theorem log_eq {count length : ℕ} (hlow : 256 ^ count ≤ length) (hhigh : length < 256 ^ (count + 1)) :
    Nat.log 256 length = count := Nat.log_eq_of_pow_le_of_lt_pow hlow hhigh

theorem uchar_eq {a b : ℕ} (h : a % 256 = b % 256) : uchar a = uchar b := by
  refine BitVec.eq_of_toNat_eq ?_
  rw [uchar, uchar, BitVec.toNat_ofNat, BitVec.toNat_ofNat]
  exact h

theorem uchar_eq_zero {n : ℕ} (h : n % 256 = 0) : uchar n = 0 := by
  refine BitVec.eq_of_toNat_eq ?_
  rw [uchar, BitVec.toNat_ofNat]
  exact h

theorem and_0xFF (n : ℕ) : n &&& 0xFF = n % 256 := Nat.and_two_pow_sub_one_eq_mod n 8

theorem asnBuildLength_eq {length : ℕ} (h : length < 2 ^ 32) : asnBuildLength length = put (lengthOctets length) := by
  have hoctet : ∀ k, uchar ((length >>> k) &&& 0xFF) = BitVec.ofNat 8 (length / 2 ^ k) := by
    intro k
    rw [and_0xFF, Nat.shiftRight_eq_div_pow]
    exact uchar_eq (Nat.mod_mod _ _)
  have hlast : uchar (length &&& 0xFF) = BitVec.ofNat 8 length := by
    rw [and_0xFF]
    exact uchar_eq (Nat.mod_mod _ _)
  unfold asnBuildLength lengthOctets
  rw [hoctet, hoctet, hoctet, hlast]
  by_cases hshort : length < 128
  · rw [if_pos hshort, if_pos hshort]
    simp [octetsOf, uchar]
  rw [if_neg hshort, if_neg hshort]
  dsimp only
  by_cases hone : length ≤ 0xFF
  · rw [if_pos hone, log_eq (by omega : 256 ^ 0 ≤ length) (by omega)]
    simp [octetsOf, uchar, asnLongLen]
  rw [if_neg hone]
  by_cases htwo : length ≤ 0xFFFF
  · rw [if_pos htwo, log_eq (by omega : 256 ^ 1 ≤ length) (by omega)]
    simp [octetsOf, uchar, asnLongLen]
  rw [if_neg htwo]
  by_cases hthree : length ≤ 0xFFFFFF
  · rw [if_pos hthree, log_eq (by omega : 256 ^ 2 ≤ length) (by omega)]
    simp [octetsOf, uchar, asnLongLen]
  · rw [if_neg hthree, log_eq (by omega : 256 ^ 3 ≤ length) (by omega)]
    simp [octetsOf, uchar, asnLongLen]

theorem foldl_shift_eq_value (bs : List Byte) (acc : ℕ) :
    bs.foldl (fun length b => (length <<< 8) + b.toNat) acc = value acc bs := by
  unfold value
  congr 1
  funext length b
  rw [Nat.shiftLeft_eq]

/-- A high bit, and what stands below it. -/
theorem highBit_and {n : ℕ} (h : n < 128) :
    uchar (128 + n) &&& asnLongLen ≠ 0 ∧ (uchar (128 + n) &&& ~~~asnLongLen).toNat = n := by
  have hall : ∀ n < 128, uchar (128 + n) &&& asnLongLen ≠ 0 ∧ (uchar (128 + n) &&& ~~~asnLongLen).toNat = n := by
    decide +kernel
  exact hall n h

theorem noHighBit_and {n : ℕ} (h : n < 128) :
    uchar n &&& asnLongLen = 0 ∧ (uchar n &&& ~~~asnLongLen).toNat = n ∧ (uchar n).toNat = n := by
  have hall : ∀ n < 128, uchar n &&& asnLongLen = 0 ∧ (uchar n &&& ~~~asnLongLen).toNat = n ∧ (uchar n).toNat = n := by
    decide +kernel
  exact hall n h

theorem asnParseLength_lengthOctets {length : ℕ} (h : length ≤ maxLength) (rest : List Byte) :
    asnParseLength (lengthOctets length ++ rest) = some (length, rest) := by
  unfold lengthOctets
  by_cases hshort : length < 128
  · obtain ⟨hand, -, htoNat⟩ := noHighBit_and hshort
    have hsingle : octetsOf 1 length = [uchar length] := by simp [octetsOf, uchar]
    rw [if_pos hshort, hsingle, List.singleton_append, asnParseLength, if_neg (not_not.mpr hand), htoNat]
  · rw [if_neg hshort]
    dsimp only
    have hfits : length < 256 ^ (Nat.log 256 length + 1) := Nat.lt_pow_succ_log_self (by decide) length
    have hcount : Nat.log 256 length + 1 ≤ 4 :=
      Nat.succ_le_succ (Nat.lt_succ_iff.mp (Nat.log_lt_of_lt_pow (by omega) (by unfold maxLength at h; omega)))
    obtain ⟨hand, htoNat⟩ := highBit_and (by omega : Nat.log 256 length + 1 < 128)
    have htake := takeBytes_append (octetsOf (Nat.log 256 length + 1) length) rest
    rw [length_octetsOf] at htake
    rw [List.cons_append, asnParseLength, if_pos hand, htoNat]
    dsimp only
    rw [if_neg (Nat.succ_ne_zero _), if_neg (by omega), htake]
    simp only [Option.bind_eq_bind, Option.bind_some]
    rw [foldl_shift_eq_value, value_octetsOf_of_lt hfits, if_neg (by unfold maxLength at h; omega)]

@[simp] theorem length_tlv (type : Byte) (content : List Byte) :
    (tlv type content).length = 1 + (lengthOctets content.length).length + content.length := by
  rw [tlv, List.length_cons, List.length_append]
  omega

theorem asnBuildHeader_eq {length : ℕ} (type : Byte) (h : length < 2 ^ 32) :
    asnBuildHeader type length = put (type :: lengthOctets length) := by
  rw [asnBuildHeader, asnBuildLength_eq h, put_andThen, List.singleton_append]

theorem lengthOctets_ne_nil (length : ℕ) : lengthOctets length ≠ [] := by
  unfold lengthOctets
  split
  · simp [octetsOf]
  · simp

theorem asnBuildHeader_less {type : Byte} {length room left : ℕ} {header : List Byte}
    (h : asnBuildHeader type length room = some (header, left)) : left < room := by
  obtain ⟨⟨written, room'⟩, htype, hrest⟩ := Option.bind_eq_some_iff.mp h
  obtain ⟨⟨written', room''⟩, hlength, hend⟩ := Option.bind_eq_some_iff.mp hrest
  cases hend
  obtain ⟨hle, -, rfl⟩ := put_eq_some_iff.mp htype
  rw [List.length_singleton] at hle hlength
  have hshrinks : ∀ bs : List Byte, put bs (room - 1) = some (written', left) → left ≤ room - 1 := by
    intro bs hput
    rw [(put_eq_some_iff.mp hput).2.2]
    exact Nat.sub_le _ _
  have hleft : left ≤ room - 1 := by
    unfold asnBuildLength at hlength
    split at hlength
    · exact hshrinks _ hlength
    · split at hlength
      · exact hshrinks _ hlength
      · split at hlength
        · exact hshrinks _ hlength
        · split at hlength
          · exact hshrinks _ hlength
          · exact hshrinks _ hlength
  omega

theorem length_lengthOctets_le {length : ℕ} (h : length < 2 ^ 32) : (lengthOctets length).length ≤ 5 := by
  unfold lengthOctets
  split
  · rw [length_octetsOf]
    omega
  · have hlog : Nat.log 256 length < 4 := Nat.log_lt_of_lt_pow (by omega) (by omega)
    rw [List.length_cons, length_octetsOf]
    omega

/-- The check for two octets in advance makes no difference. -/
theorem asnBuildSequence_eq {length : ℕ} (type : Byte) (h : length < 2 ^ 32) :
    asnBuildSequence type length = put (type :: lengthOctets length) := by
  have hpos := List.length_pos_of_ne_nil (lengthOctets_ne_nil length)
  funext datalength
  rw [asnBuildSequence, asnBuildHeader_eq type h]
  split
  · rw [put, if_neg (by rw [List.length_cons]; omega)]
  · rfl

/-- A header is read off an object that the message holds; what is valid is then its content. -/
theorem asnParseHeader_tlv {type : Byte} (htype : type &&& asnExtensionId ≠ asnExtensionId) {content : List Byte}
    (hcontent : content.length ≤ maxLength) (rest : List Byte) {n : ℕ} (hn : (tlv type content).length ≤ n) :
    asnParseHeader ⟨tlv type content ++ rest, n⟩ = some (type, ⟨content ++ rest, content.length⟩) := by
  rw [length_tlv] at hn
  unfold asnParseHeader tlv
  simp only [List.cons_append, List.append_assoc, if_neg htype, asnParseLength_lengthOctets hcontent,
    Option.bind_eq_bind, Option.bind_some, List.length_cons, List.length_append]
  rw [if_neg (by omega)]

/-- An object that the message does not hold is not read. -/
theorem asnParseHeader_short {type : Byte} {content : List Byte} (hcontent : content.length ≤ maxLength)
    (rest : List Byte) {n : ℕ} (hn : n < (tlv type content).length) :
    asnParseHeader ⟨tlv type content ++ rest, n⟩ = none := by
  rw [length_tlv] at hn
  unfold asnParseHeader tlv
  simp only [List.cons_append, List.append_assoc, asnParseLength_lengthOctets hcontent, Option.bind_eq_bind,
    Option.bind_some, List.length_cons, List.length_append]
  split
  · rfl
  · rw [if_pos (by omega)]

theorem asnParseContent_tlv {types : List Byte} {type : Byte} (htype : type ∈ types) {content : List Byte}
    (hcontent : content.length ≤ maxLength) (rest : List Byte) {n : ℕ} (hn : (tlv type content).length ≤ n) :
    asnParseContent types ⟨tlv type content ++ rest, n⟩ =
      some ((type, content.length), ⟨content ++ rest, n - (tlv type content).length⟩) := by
  rw [length_tlv] at hn ⊢
  unfold asnParseContent tlv
  simp only [List.cons_append, List.append_assoc, if_neg (not_not.mpr htype), asnParseLength_lengthOctets hcontent,
    Option.bind_eq_bind, Option.bind_some, List.length_cons, List.length_append]
  rw [if_neg (by omega)]
  congr 3
  omega

end SnmpB.Ber
