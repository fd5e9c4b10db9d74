import SnmpB.Ber.Variable

/-! # Where the digest goes

The security parameters are a sequence inside an octet string inside the message. While the
message is built, the place of the digest is counted along: two octets for the header of an
object, two more for a longer one.
-/
namespace SnmpB.Usm
open Framing Octets Ber

structure UsmSecurityParameters where
  msgAuthoritativeEngineID : List Byte
  msgAuthoritativeEngineBoots : ℤ
  msgAuthoritativeEngineTime : ℤ
  msgUserName : List Byte
  msgAuthenticationParameters : List Byte
  msgPrivacyParameters : List Byte

variable (sp : UsmSecurityParameters) (globalData msgData : List Byte)

/-! ## Building -/

/-- The parameters before the digest. -/
def buildFront : Writer Byte :=
  andThen (asnBuildString asnOctetStr sp.msgAuthoritativeEngineID)
    (andThen (asnBuildInt asnInteger sp.msgAuthoritativeEngineBoots)
      (andThen (asnBuildInt asnInteger sp.msgAuthoritativeEngineTime)
        (asnBuildString asnOctetStr sp.msgUserName)))

def buildBack : Writer Byte :=
  andThen (asnBuildString asnOctetStr sp.msgAuthenticationParameters)
    (asnBuildString asnOctetStr sp.msgPrivacyParameters)

/-- `build_sec_params`: the octets and where the digest is in them. -/
def buildSecParams (maxLength : ℕ) : Option (List Byte × ℕ) := do
  let (front, length) ← buildFront sp maxLength
  let position := front.length + 2
  let (back, _) ← buildBack sp length
  let buf := front ++ back
  let (header, maxLength) ← asnBuildSequence asnSeqCon buf.length maxLength
  if maxLength < buf.length then none else some (header ++ buf, position + header.length)

/-- `build_whole_msg`: the message and where the digest is in it. -/
def buildWholeMsg (maxLength : ℕ) : Option (List Byte × ℕ) := do
  let (secPar, positionAuthPar) ← buildSecParams sp maxLength
  let (version, length) ← asnBuildInt asnInteger 3 maxLength
  if length < globalData.length then none
  else
    let front := version ++ globalData
    let positionAuthPar := positionAuthPar + (front.length + 2)
    let positionAuthPar := if secPar.length > 0x7f then positionAuthPar + 2 else positionAuthPar
    let (string, length) ← asnBuildString asnOctetStr secPar (length - globalData.length)
    if length < msgData.length then none
    else
      let buf := front ++ string ++ msgData
      let (header, maxLength) ← asnBuildSequence asnSeqCon buf.length maxLength
      if maxLength < buf.length then none else some (header ++ buf, positionAuthPar + header.length)

/-! ## Parsing -/

/-- How `process_msg` takes the parameters apart, and where behind their beginning the digest is. -/
def parseSecParams (c : Ber.Cursor) : Option (UsmSecurityParameters × ℕ) := do
  let (type, s) ← asnParseHeader c
  if type ≠ asnSeqCon then none
  else
    let ((_, engineId), s) ← asnParseString 33 s
    let ((_, engineBoots), s) ← asnParseInt s
    if engineBoots < 0 then none
    else
      let ((_, engineTime), s) ← asnParseInt s
      if engineTime < 0 then none
      else
        let ((_, usmUserName), s) ← asnParseString 32 s
        let ((_, authParam), s) ← asnParseString 128 s
        let position := c.data.length - s.data.length - authParam.length
        let ((_, privParam), s) ← asnParseString 128 s
        if s.valid ≠ 0 then none
        else some (⟨engineId, engineBoots, engineTime, usmUserName, authParam, privParam⟩, position)

/-- The parameters that a receiver has room for. -/
structure UsmSecurityParameters.Received (sp : UsmSecurityParameters) : Prop where
  engineId : sp.msgAuthoritativeEngineID.length ≤ 33
  engineBoots : 0 ≤ sp.msgAuthoritativeEngineBoots ∧ IsLong sp.msgAuthoritativeEngineBoots
  engineTime : 0 ≤ sp.msgAuthoritativeEngineTime ∧ IsLong sp.msgAuthoritativeEngineTime
  userName : sp.msgUserName.length ≤ 32
  authParam : sp.msgAuthenticationParameters.length < 128
  privParam : sp.msgPrivacyParameters.length ≤ 128

/-! ## What is written -/

def frontTlv : List Byte :=
  tlv asnOctetStr sp.msgAuthoritativeEngineID ++ (tlv asnInteger (intContent sp.msgAuthoritativeEngineBoots) ++
    (tlv asnInteger (intContent sp.msgAuthoritativeEngineTime) ++ tlv asnOctetStr sp.msgUserName))

def secContent : List Byte :=
  frontTlv sp ++ (tlv asnOctetStr sp.msgAuthenticationParameters ++ tlv asnOctetStr sp.msgPrivacyParameters)

def secTlv : List Byte := tlv asnSeqCon (secContent sp)

def wholeContent : List Byte :=
  tlv asnInteger (intContent 3) ++ globalData ++ tlv asnOctetStr (secTlv sp) ++ msgData

/-- What stands before the digest in a message. -/
def beforeDigest : List Byte :=
  asnSeqCon :: lengthOctets (wholeContent sp globalData msgData).length ++
    (tlv asnInteger (intContent 3) ++ globalData) ++
    (asnOctetStr :: lengthOctets (secTlv sp).length) ++ (asnSeqCon :: lengthOctets (secContent sp).length) ++
    frontTlv sp ++ (asnOctetStr :: lengthOctets sp.msgAuthenticationParameters.length)

theorem buildFront_writes : Writes maxSnmpPacket (buildFront sp) (frontTlv sp) :=
  (string_writes _ _).andThen ((writes_of_eq_put (asnBuildInt_eq _ _)).andThen
    ((writes_of_eq_put (asnBuildInt_eq _ _)).andThen (string_writes _ _)))

theorem buildBack_writes : Writes maxSnmpPacket (buildBack sp)
    (tlv asnOctetStr sp.msgAuthenticationParameters ++ tlv asnOctetStr sp.msgPrivacyParameters) :=
  (string_writes _ _).andThen (string_writes _ _)

theorem wholeMsg_split : tlv asnSeqCon (wholeContent sp globalData msgData) =
    beforeDigest sp globalData msgData ++ sp.msgAuthenticationParameters ++
      (tlv asnOctetStr sp.msgPrivacyParameters ++ msgData) := by
  simp only [tlv, wholeContent, beforeDigest, secTlv, secContent, List.cons_append, List.append_assoc]

variable {sp globalData msgData} {maxLength position : ℕ} {octets : List Byte}

theorem buildSecParams_some (hroom : maxLength ≤ maxSnmpPacket)
    (h : buildSecParams sp maxLength = some (octets, position)) :
    octets = secTlv sp ∧ (secContent sp).length ≤ maxLength ∧
      position = (frontTlv sp).length + 2 + (asnSeqCon :: lengthOctets (secContent sp).length).length := by
  obtain ⟨⟨front, length⟩, hfront, h⟩ := Option.bind_eq_some_iff.mp h
  obtain ⟨⟨back, length'⟩, hback, h⟩ := Option.bind_eq_some_iff.mp h
  obtain ⟨⟨header, left⟩, hheader, h⟩ := Option.bind_eq_some_iff.mp h
  rw [buildFront_writes sp maxLength hroom] at hfront
  obtain ⟨hfits, rfl, rfl⟩ := put_eq_some_iff.mp hfront
  rw [buildBack_writes sp _ (by omega)] at hback
  obtain ⟨hfits', rfl, -⟩ := put_eq_some_iff.mp hback
  have hlength : (secContent sp).length ≤ maxLength := by
    rw [secContent, List.length_append]
    omega
  have hword : (secContent sp).length < 2 ^ 32 := by
    unfold maxSnmpPacket at hroom
    omega
  dsimp only at hheader h
  rw [show frontTlv sp ++ (tlv asnOctetStr sp.msgAuthenticationParameters ++ tlv asnOctetStr sp.msgPrivacyParameters) =
    secContent sp from rfl] at hheader h
  rw [asnBuildSequence_eq _ hword] at hheader
  obtain ⟨-, rfl, -⟩ := put_eq_some_iff.mp hheader
  split at h
  · cases h
  obtain ⟨rfl, rfl⟩ := Prod.mk.inj (Option.some.inj h)
  exact ⟨by rw [secTlv, tlv, List.cons_append], hlength, rfl⟩

theorem buildWholeMsg_some (hroom : maxLength ≤ maxSnmpPacket)
    (h : buildWholeMsg sp globalData msgData maxLength = some (octets, position)) :
    octets = tlv asnSeqCon (wholeContent sp globalData msgData) ∧ (secTlv sp).length < 65536 ∧
      position = (frontTlv sp).length + 2 + (asnSeqCon :: lengthOctets (secContent sp).length).length +
        ((tlv asnInteger (intContent 3) ++ globalData).length + 2) + (if (secTlv sp).length > 0x7f then 2 else 0) +
        (asnSeqCon :: lengthOctets (wholeContent sp globalData msgData).length).length := by
  obtain ⟨⟨secPar, positionAuthPar⟩, hsec, h⟩ := Option.bind_eq_some_iff.mp h
  obtain ⟨⟨version, length⟩, hversion, h⟩ := Option.bind_eq_some_iff.mp h
  obtain ⟨rfl, -, rfl⟩ := buildSecParams_some hroom hsec
  rw [asnBuildInt_eq] at hversion
  obtain ⟨hfits, rfl, rfl⟩ := put_eq_some_iff.mp hversion
  dsimp only at h
  split at h
  · cases h
  rename_i hglobal
  obtain ⟨⟨string, length⟩, hstring, h⟩ := Option.bind_eq_some_iff.mp h
  rw [string_writes _ _ _ (by omega)] at hstring
  obtain ⟨hfits', rfl, rfl⟩ := put_eq_some_iff.mp hstring
  dsimp only at h
  split at h
  · cases h
  rename_i hdata
  obtain ⟨⟨header, left⟩, hheader, h⟩ := Option.bind_eq_some_iff.mp h
  have hbuf : tlv asnInteger (intContent 3) ++ globalData ++ tlv asnOctetStr (secTlv sp) ++ msgData =
      wholeContent sp globalData msgData := rfl
  have hlength : (wholeContent sp globalData msgData).length ≤ maxLength := by
    rw [wholeContent, List.length_append, List.length_append, List.length_append]
    omega
  unfold maxSnmpPacket at hroom
  have hsmall : (secTlv sp).length < 65536 := by
    rw [length_tlv] at hfits'
    omega
  rw [hbuf] at hheader h
  rw [asnBuildSequence_eq _ (by omega)] at hheader
  obtain ⟨-, rfl, -⟩ := put_eq_some_iff.mp hheader
  split at h
  · cases h
  obtain ⟨rfl, rfl⟩ := Prod.mk.inj (Option.some.inj h)
  refine ⟨by rw [tlv, List.cons_append], hsmall, ?_⟩
  split
  · rfl
  · rfl

theorem length_lengthOctets {length : ℕ} (h : length < 65536) :
    (lengthOctets length).length = if length < 128 then 1 else if length < 256 then 2 else 3 := by
  unfold lengthOctets
  split
  · exact length_octetsOf _ _
  · rename_i hlong
    split
    · rw [log_eq (by omega : 256 ^ 0 ≤ length) (by omega)]
      simp [length_octetsOf]
    · rw [log_eq (by omega : 256 ^ 1 ≤ length) (by omega)]
      simp [length_octetsOf]

theorem asnParseString_octets {string : List Byte} {strlength : ℕ} (h : string.length ≤ strlength)
    (hsmall : strlength ≤ 128) : Reads (asnParseString strlength) (tlv asnOctetStr string) (asnOctetStr, string) :=
  asnParseString_reads (by decide) h (by unfold maxLength; omega)

/-- An engine and a user with names of 32 octets, a digest of 48 octets and a salt. -/
def longParameters : UsmSecurityParameters :=
  ⟨List.replicate 32 1, 1, 1000, List.replicate 32 97, List.replicate 48 0, List.replicate 8 2⟩

/-- What is built is parsed into the same parameters, and the receiver finds the digest at the place
that the sender has counted. -/
theorem buildSecParams_parsed (hroom : maxLength ≤ maxSnmpPacket) (hsp : sp.Received)
    (h : buildSecParams sp maxLength = some (octets, position)) (rest : List Byte) :
    parseSecParams ⟨octets ++ rest, octets.length⟩ = some (sp, position) := by
  obtain ⟨rfl, hlength, rfl⟩ := buildSecParams_some hroom h
  have hfits : (secContent sp).length ≤ Ber.maxLength := by
    unfold maxSnmpPacket at hroom
    unfold Ber.maxLength
    omega
  have hheader := asnParseHeader_tlv (by decide : asnSeqCon &&& asnExtensionId ≠ asnExtensionId) hfits rest
    (Nat.le_refl (tlv asnSeqCon (secContent sp)).length)
  have hsum : (secContent sp).length = (frontTlv sp).length +
      ((tlv asnOctetStr sp.msgAuthenticationParameters).length + (tlv asnOctetStr sp.msgPrivacyParameters).length) := by
    rw [secContent, List.length_append, List.length_append]
  have hfront : (frontTlv sp).length = (tlv asnOctetStr sp.msgAuthoritativeEngineID).length +
      ((tlv asnInteger (intContent sp.msgAuthoritativeEngineBoots)).length +
        ((tlv asnInteger (intContent sp.msgAuthoritativeEngineTime)).length +
          (tlv asnOctetStr sp.msgUserName).length)) := by
    rw [frontTlv, List.length_append, List.length_append, List.length_append]
  have hdata : secContent sp ++ rest = tlv asnOctetStr sp.msgAuthoritativeEngineID ++
      (tlv asnInteger (intContent sp.msgAuthoritativeEngineBoots) ++
        (tlv asnInteger (intContent sp.msgAuthoritativeEngineTime) ++ (tlv asnOctetStr sp.msgUserName ++
          (tlv asnOctetStr sp.msgAuthenticationParameters ++ (tlv asnOctetStr sp.msgPrivacyParameters ++ rest))))) := by
    simp only [secContent, frontTlv, List.append_assoc]
  unfold parseSecParams secTlv
  rw [hheader]
  simp only [Option.bind_eq_bind, Option.bind_some]
  rw [if_neg (not_not.mpr rfl), hdata, asnParseString_octets hsp.engineId (by omega) _ _ (by omega), Option.bind_some,
    asnParseInt_reads (by decide) hsp.engineBoots.2 _ _ (by omega), Option.bind_some]
  dsimp only
  rw [if_neg (not_lt.mpr hsp.engineBoots.1), asnParseInt_reads (by decide) hsp.engineTime.2 _ _ (by omega),
    Option.bind_some]
  dsimp only
  rw [if_neg (not_lt.mpr hsp.engineTime.1), asnParseString_octets hsp.userName (by omega) _ _ (by omega),
    Option.bind_some]
  dsimp only
  rw [asnParseString_octets hsp.authParam.le (by omega) _ _ (by omega), Option.bind_some]
  dsimp only
  rw [asnParseString_octets hsp.privParam (by omega) _ _ (by omega), Option.bind_some]
  dsimp only
  rw [if_neg (by omega)]
  -- the digest has a header of two octets
  have hdigest := length_lengthOctets (show sp.msgAuthenticationParameters.length < 65536 from
    hsp.authParam.trans (by decide))
  rw [if_pos hsp.authParam] at hdigest
  have hplace : (tlv asnSeqCon (secContent sp) ++ rest).length -
      (tlv asnOctetStr sp.msgPrivacyParameters ++ rest).length - sp.msgAuthenticationParameters.length =
        (frontTlv sp).length + 2 + (asnSeqCon :: lengthOctets (secContent sp).length).length := by
    have hauth := length_tlv asnOctetStr sp.msgAuthenticationParameters
    rw [List.length_append, List.length_append, length_tlv asnSeqCon, List.length_cons]
    omega
  rw [hplace]

theorem buildSecParams_parsed_sample : ∃ octets position,
    buildSecParams longParameters maxSnmpPacket = some (octets, position) ∧
      parseSecParams ⟨octets ++ [7], octets.length⟩ = some (longParameters, position) := by
  have hbuilt : (buildSecParams longParameters maxSnmpPacket).isSome = true := by decide +kernel
  obtain ⟨⟨octets, position⟩, h⟩ := Option.isSome_iff_exists.mp hbuilt
  have hsp : longParameters.Received :=
    { engineId := by decide +kernel
      engineBoots := ⟨by decide +kernel, by unfold IsLong; decide +kernel⟩
      engineTime := ⟨by decide +kernel, by unfold IsLong; decide +kernel⟩
      userName := by decide +kernel
      authParam := by decide +kernel
      privParam := by decide +kernel }
  exact ⟨octets, position, h, buildSecParams_parsed (le_refl maxSnmpPacket) hsp h [7]⟩

/-- The place that is counted is the place of the digest, except for security parameters of 128 to
255 octets, whose length takes two octets and not three: then the place is one octet behind. -/
theorem buildWholeMsg_position (hroom : maxLength ≤ maxSnmpPacket)
    (hauth : sp.msgAuthenticationParameters.length < 128)
    (h : buildWholeMsg sp globalData msgData maxLength = some (octets, position)) :
    octets = beforeDigest sp globalData msgData ++ sp.msgAuthenticationParameters ++
        (tlv asnOctetStr sp.msgPrivacyParameters ++ msgData) ∧
      position = (beforeDigest sp globalData msgData).length +
        if 128 ≤ (secTlv sp).length ∧ (secTlv sp).length < 256 then 1 else 0 := by
  obtain ⟨rfl, hsmall, rfl⟩ := buildWholeMsg_some hroom h
  refine ⟨wholeMsg_split sp globalData msgData, ?_⟩
  have hdigest := length_lengthOctets (show sp.msgAuthenticationParameters.length < 65536 by omega)
  have hsec := length_lengthOctets hsmall
  rw [if_pos hauth] at hdigest
  simp only [beforeDigest, List.length_append, List.length_cons, hdigest, hsec]
  split_ifs <;> omega

theorem buildWholeMsg_position_sample : ∃ octets position,
    buildWholeMsg longParameters [] [] maxSnmpPacket = some (octets, position) ∧
      position = (beforeDigest longParameters [] []).length + 1 := by
  have hbuilt : (buildWholeMsg longParameters [] [] maxSnmpPacket).isSome = true := by decide +kernel
  obtain ⟨⟨octets, position⟩, h⟩ := Option.isSome_iff_exists.mp hbuilt
  have hsec : (secTlv longParameters).length = 138 := by decide +kernel
  have hauth : longParameters.msgAuthenticationParameters.length < 128 := by decide +kernel
  have hposition := (buildWholeMsg_position (le_refl maxSnmpPacket) hauth h).2
  rw [hsec, if_pos (by decide)] at hposition
  exact ⟨octets, position, h, hposition⟩

end SnmpB.Usm
