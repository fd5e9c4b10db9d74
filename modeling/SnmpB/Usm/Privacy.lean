import SnmpB.Library.Feedback
import SnmpB.Usm.Authentication

/-! # Encryption of the scoped PDU

DES chains blocks of eight octets, AES chains octets. Both start from a vector that is made of
parts both sides know and of the privacy parameters that travel in the message. The sender
takes a new salt for every message.
-/
namespace SnmpB.Usm
open Octets Feedback
open SnmpB.Ber (Byte)

/-- A cipher of the library under a key. -/
structure BlockCipher where
  blockLength : ℕ
  encrypt : List Byte → List Byte → List Byte
  decrypt : List Byte → List Byte → List Byte

/-- Blocks keep their length and can be decrypted. -/
structure BlockCipher.Inverts (c : BlockCipher) (key : List Byte) : Prop where
  length : ∀ b : List Byte, b.length = c.blockLength → (c.encrypt key b).length = c.blockLength
  decrypt : ∀ b : List Byte, b.length = c.blockLength → c.decrypt key (c.encrypt key b) = b

def xor (a b : List Byte) : List Byte := List.zipWith (· ^^^ ·) a b

/-- A protocol as `AuthPriv` calls it; none where it returns an error. The salt is the one the
call takes. -/
structure Priv where
  encrypt (key buffer : List Byte) (engineBoots engineTime salt : ℕ) : Option (List Byte × List Byte)
  decrypt (key buffer privacyParams : List Byte) (engineBoots engineTime : ℕ) : Option (List Byte)
  /-- The key of the authentication protocol where it is too short. -/
  extendShortKey (a : Auth) (key : List Byte) : Option (List Byte)
  privParamsLen : ℕ
  minKeyLen : ℕ

/-! ## DES -/

namespace PrivDES

/-- The first blocks of a buffer. -/
def blocks : ℕ → List Byte → List (List Byte)
  | 0, _ => []
  | k + 1, buffer => buffer.take 8 :: blocks k (buffer.drop 8)

/-- What is left behind the whole blocks, filled with zeros. -/
def lastBlock (buffer : List Byte) : List (List Byte) :=
  if buffer.length % 8 = 0 then []
  else [buffer.drop (buffer.length - buffer.length % 8) ++ List.replicate (8 - buffer.length % 8) 0]

def privacyParams (engineBoots salt : ℕ) : List Byte := octetsOf 4 engineBoots ++ octetsOf 4 salt

/-- The last eight octets of the key are the base of the vector. -/
def initVect (key privacyParams : List Byte) : List Byte := xor ((key.drop 8).take 8) privacyParams

variable (c : BlockCipher)

/-- `cbc_encrypt` and `cbc_decrypt` of one block; the block that was sent is the next vector. -/
def cbcEncrypt (key iv block : List Byte) : List Byte := c.encrypt (key.take 8) (xor iv block)

def cbcDecrypt (key iv block : List Byte) : List Byte := xor (c.decrypt (key.take 8) block) iv

/-- A key that is too short is read behind its end, and for less than a block the loop over the
whole blocks does not stop. -/
def encrypt (key buffer : List Byte) (engineBoots salt : ℕ) : Option (List Byte × List Byte) :=
  if key.length < 16 ∨ buffer.length < 8 then none
  else
    let privacyParams := privacyParams engineBoots salt
    let whole := blocks (buffer.length / 8) buffer
    some ((sealAll (cbcEncrypt c key) (fun _ block => block) (initVect key privacyParams)
      (whole ++ lastBlock buffer)).flatten, privacyParams)

def decrypt (key buffer privacyParams : List Byte) : Option (List Byte) :=
  if buffer.length % 8 ≠ 0 ∨ privacyParams.length ≠ 8 then none
  else if key.length < 16 then none
  else
    some (unsealAll (cbcDecrypt c key) (fun _ block => block) (initVect key privacyParams)
      (blocks (buffer.length / 8) buffer)).flatten

end PrivDES

def privDES (c : BlockCipher) : Priv where
  encrypt key buffer engineBoots _ salt := PrivDES.encrypt c key buffer engineBoots salt
  decrypt key buffer privacyParams _ _ := PrivDES.decrypt c key buffer privacyParams
  extendShortKey _ _ := none
  privParamsLen := 8
  minKeyLen := 16

/-! ## AES -/

namespace PrivAES

/-- `symmetric_CFB`: the encrypted vector and the octets of the next one, `padlen` of them. -/
structure SymmetricCFB where
  iv : List Byte
  pad : List Byte

variable (c : BlockCipher)

def cfbStart (key initVect : List Byte) : SymmetricCFB := ⟨c.encrypt key initVect, []⟩

/-- A full pad is encrypted and becomes the next vector. -/
def refill (key : List Byte) (cfb : SymmetricCFB) : SymmetricCFB :=
  if cfb.pad.length = c.blockLength then ⟨c.encrypt key cfb.pad, []⟩ else cfb

/-- `cfb_encrypt` and `cfb_decrypt` of one octet. -/
def cfbOctet (key : List Byte) (cfb : SymmetricCFB) (b : Byte) : Byte :=
  b ^^^ (refill c key cfb).iv.getD (refill c key cfb).pad.length 0

def cfbFeed (key : List Byte) (cfb : SymmetricCFB) (sent : Byte) : SymmetricCFB :=
  { refill c key cfb with pad := (refill c key cfb).pad ++ [sent] }

/-- The salt as it stands in the vector: its low half first where octets are swapped. -/
def saltOctets (needByteswap : Bool) (salt : ℕ) : List Byte :=
  if needByteswap then octetsOf 4 (salt % 2 ^ 32) ++ octetsOf 4 (salt / 2 ^ 32) else octetsOf 8 salt

def initVect (engineBoots engineTime : ℕ) (privacyParams : List Byte) : List Byte :=
  octetsOf 4 engineBoots ++ octetsOf 4 engineTime ++ privacyParams

def encrypt (needByteswap : Bool) (keyBytes : ℕ) (key buffer : List Byte) (engineBoots engineTime salt : ℕ) :
    Option (List Byte × List Byte) :=
  let privacyParams := saltOctets needByteswap salt
  if key.length < keyBytes then none
  else some (sealAll (cfbOctet c (key.take keyBytes)) (cfbFeed c (key.take keyBytes))
    (cfbStart c (key.take keyBytes) (initVect engineBoots engineTime privacyParams)) buffer, privacyParams)

def decrypt (keyBytes : ℕ) (key buffer privacyParams : List Byte) (engineBoots engineTime : ℕ) :
    Option (List Byte) :=
  if privacyParams.length ≠ 8 ∨ key.length < keyBytes then none
  else
    some (unsealAll (cfbOctet c (key.take keyBytes)) (cfbFeed c (key.take keyBytes))
      (cfbStart c (key.take keyBytes) (initVect engineBoots engineTime privacyParams)) buffer)

/-- The hash of the key so far is appended until the key is long enough. -/
def extendShortKey (a : Auth) (keyBytes : ℕ) (key : List Byte) : List Byte :=
  if key.length < keyBytes then
    extendShortKey a keyBytes (key ++ (a.hasher.hash key).take (keyBytes - key.length))
  else key
termination_by keyBytes - key.length
decreasing_by
  have hpos := a.hasher.keyLength_pos
  rw [List.length_append, List.length_take, a.hasher.length_hash]
  omega

end PrivAES

def privAES (c : BlockCipher) (needByteswap : Bool) (keyBytes : ℕ) : Priv where
  encrypt key buffer engineBoots engineTime salt :=
    PrivAES.encrypt c needByteswap keyBytes key buffer engineBoots engineTime salt
  decrypt key buffer privacyParams engineBoots engineTime :=
    PrivAES.decrypt c keyBytes key buffer privacyParams engineBoots engineTime
  extendShortKey a key := some (PrivAES.extendShortKey a keyBytes key)
  privParamsLen := 8
  minKeyLen := keyBytes

/-! ## What was encrypted is decrypted -/

/-- With the same key, boots and time a decrypted message is the one that was encrypted, with zeros
behind it where the protocol fills blocks. -/
def Priv.Undoes (p : Priv) (key : List Byte) : Prop :=
  ∀ buffer engineBoots engineTime salt encrypted privacyParams,
    p.encrypt key buffer engineBoots engineTime salt = some (encrypted, privacyParams) →
      privacyParams.length = p.privParamsLen ∧
        ∃ zeros, p.decrypt key encrypted privacyParams engineBoots engineTime =
          some (buffer ++ List.replicate zeros 0)

theorem xor_length (a b : List Byte) : (xor a b).length = min a.length b.length := List.length_zipWith

theorem xor_xor {a b : List Byte} (h : a.length = b.length) : xor (xor a b) a = b := by
  induction a generalizing b with
  | nil =>
    obtain rfl := List.length_eq_zero_iff.mp h.symm
    rfl
  | cons x a ih =>
    cases b with
    | nil => cases h
    | cons y b =>
      have hhead : x ^^^ y ^^^ x = y := by
        rw [BitVec.xor_comm x y, BitVec.xor_assoc, BitVec.xor_self, BitVec.xor_zero]
      simp only [xor, List.zipWith_cons_cons, hhead]
      exact congrArg (y :: ·) (ih (Nat.succ.inj h))

namespace PrivDES

theorem flatten_blocks (k : ℕ) (buffer : List Byte) : (blocks k buffer).flatten = buffer.take (8 * k) := by
  induction k generalizing buffer with
  | zero => rfl
  | succ k ih => rw [blocks, List.flatten_cons, ih, Nat.mul_succ, Nat.add_comm, List.take_add]

theorem mem_blocks {k : ℕ} {buffer : List Byte} (hlength : 8 * k ≤ buffer.length) :
    ∀ b ∈ blocks k buffer, b.length = 8 := by
  induction k generalizing buffer with
  | zero => intro b hb; cases hb
  | succ k ih =>
    intro b hb
    rcases List.mem_cons.mp hb with rfl | hb
    · rw [List.length_take]
      omega
    · refine ih ?_ b hb
      rw [List.length_drop]
      omega

theorem blocks_flatten {bs : List (List Byte)} (h : ∀ b ∈ bs, b.length = 8) : blocks bs.length bs.flatten = bs := by
  induction bs with
  | nil => rfl
  | cons b bs ih =>
    have hb : b.length = 8 := h b List.mem_cons_self
    rw [List.length_cons, List.flatten_cons, blocks, List.take_left' hb, List.drop_left' hb,
      ih fun c hc => h c (List.mem_cons_of_mem _ hc)]

theorem flatten_length {bs : List (List Byte)} (h : ∀ b ∈ bs, b.length = 8) : bs.flatten.length = 8 * bs.length := by
  induction bs with
  | nil => rfl
  | cons b bs ih =>
    rw [List.flatten_cons, List.length_append, h b List.mem_cons_self,
      ih fun c hc => h c (List.mem_cons_of_mem _ hc), List.length_cons]
    omega

/-- The blocks of a buffer are its octets and the zeros behind them. -/
theorem flatten_padded (buffer : List Byte) : ∃ zeros,
    (blocks (buffer.length / 8) buffer ++ lastBlock buffer).flatten = buffer ++ List.replicate zeros 0 := by
  have hwhole : 8 * (buffer.length / 8) = buffer.length - buffer.length % 8 := by omega
  rw [List.flatten_append, flatten_blocks, hwhole]
  unfold lastBlock
  split
  · rename_i hnone
    refine ⟨0, ?_⟩
    rw [hnone, Nat.sub_zero, List.take_length]
    simp
  · refine ⟨8 - buffer.length % 8, ?_⟩
    rw [List.flatten_singleton, ← List.append_assoc, List.take_append_drop]

theorem mem_padded (buffer : List Byte) : ∀ b ∈ blocks (buffer.length / 8) buffer ++ lastBlock buffer, b.length = 8 := by
  intro b hb
  rcases List.mem_append.mp hb with hb | hb
  · exact mem_blocks (by omega) b hb
  · unfold lastBlock at hb
    split at hb
    · cases hb
    · obtain rfl := List.mem_singleton.mp hb
      rw [List.length_append, List.length_drop, List.length_replicate]
      omega

end PrivDES

theorem privDES_undoes {c : BlockCipher} {key : List Byte} (hblock : c.blockLength = 8) (hinverts : c.Inverts (key.take 8)) :
    (privDES c).Undoes key := by
  intro buffer engineBoots engineTime salt encrypted privacyParams hencrypt
  simp only [privDES, PrivDES.encrypt] at hencrypt
  split at hencrypt
  · cases hencrypt
  rename_i hlong
  obtain ⟨rfl, rfl⟩ := Prod.mk.inj (Option.some.inj hencrypt)
  have hparams : (PrivDES.privacyParams engineBoots salt).length = 8 := by
    rw [PrivDES.privacyParams, List.length_append, length_octetsOf, length_octetsOf]
  have hvector : (PrivDES.initVect key (PrivDES.privacyParams engineBoots salt)).length = 8 := by
    rw [PrivDES.initVect, xor_length, hparams, List.length_take, List.length_drop]
    omega
  refine ⟨hparams, ?_⟩
  have hxor : ∀ s b : List Byte, s.length = 8 → b.length = 8 → (xor s b).length = c.blockLength := by
    intro s b hs hb
    rw [xor_length, hs, hb, hblock]
    rfl
  have hundo : ∀ s b : List Byte, s.length = 8 → b.length = 8 →
      PrivDES.cbcDecrypt c key s (PrivDES.cbcEncrypt c key s b) = b := by
    intro s b hs hb
    rw [PrivDES.cbcDecrypt, PrivDES.cbcEncrypt, hinverts.decrypt _ (hxor s b hs hb), xor_xor (hs.trans hb.symm)]
  have hfeed : ∀ s b : List Byte, s.length = 8 → b.length = 8 → (PrivDES.cbcEncrypt c key s b).length = 8 := by
    intro s b hs hb
    rw [PrivDES.cbcEncrypt, hinverts.length _ (hxor s b hs hb), hblock]
  have hpadded := PrivDES.mem_padded buffer
  obtain ⟨zeros, hflat⟩ := PrivDES.flatten_padded buffer
  have hsent : ∀ b ∈ sealAll (PrivDES.cbcEncrypt c key) (fun _ block => block)
      (PrivDES.initVect key (PrivDES.privacyParams engineBoots salt))
      (PrivDES.blocks (buffer.length / 8) buffer ++ PrivDES.lastBlock buffer), b.length = 8 :=
    mem_sealAll (f := PrivDES.cbcEncrypt c key) (R := fun b => b.length = 8) hfeed hfeed hvector hpadded
  refine ⟨zeros, ?_⟩
  simp only [privDES, PrivDES.decrypt]
  rw [PrivDES.flatten_length hsent, if_neg (by omega), if_neg (by omega), Nat.mul_div_cancel_left _ (by omega),
    PrivDES.blocks_flatten hsent, unsealAll_sealAll hundo hfeed hvector hpadded, hflat]

theorem PrivAES.length_saltOctets (needByteswap : Bool) (salt : ℕ) : (PrivAES.saltOctets needByteswap salt).length = 8 := by
  unfold PrivAES.saltOctets
  split
  · rw [List.length_append, length_octetsOf, length_octetsOf]
  · exact length_octetsOf _ _

/-- Both sides run through the same vectors, since what was sent fills the pad. -/
theorem PrivAES.decrypt_encrypt (c : BlockCipher) {needByteswap : Bool} {keyBytes : ℕ} {key : List Byte}
    {engineBoots engineTime salt : ℕ} {buffer encrypted privacyParams : List Byte}
    (h : PrivAES.encrypt c needByteswap keyBytes key buffer engineBoots engineTime salt = some (encrypted, privacyParams)) :
    privacyParams.length = 8 ∧
      PrivAES.decrypt c keyBytes key encrypted privacyParams engineBoots engineTime = some buffer := by
  unfold PrivAES.encrypt at h
  split at h
  · cases h
  rename_i hlong
  obtain ⟨rfl, rfl⟩ := Prod.mk.inj (Option.some.inj h)
  have hparams := PrivAES.length_saltOctets needByteswap salt
  have hundo : ∀ (s : PrivAES.SymmetricCFB) (b : Byte), True → True →
      PrivAES.cfbOctet c (key.take keyBytes) s (PrivAES.cfbOctet c (key.take keyBytes) s b) = b := by
    intro s b _ _
    rw [PrivAES.cfbOctet, PrivAES.cfbOctet, BitVec.xor_assoc, BitVec.xor_self, BitVec.xor_zero]
  refine ⟨hparams, ?_⟩
  unfold PrivAES.decrypt
  rw [if_neg (by omega), unsealAll_sealAll (P := fun _ => True) (Q := fun _ => True) hundo (fun _ _ _ _ => trivial)
    trivial fun _ _ => trivial]

theorem privAES_undoes (c : BlockCipher) (needByteswap : Bool) (keyBytes : ℕ) (key : List Byte) :
    (privAES c needByteswap keyBytes).Undoes key := by
  intro buffer engineBoots engineTime salt encrypted privacyParams hencrypt
  obtain ⟨hparams, hdecrypt⟩ := PrivAES.decrypt_encrypt c hencrypt
  exact ⟨hparams, 0, hdecrypt.trans (by simp)⟩

/-- Under AES every message that was encrypted comes back as it was, whatever the cipher does with a block. -/
theorem privAES_round_trip (c : BlockCipher) (needByteswap : Bool) (keyBytes : ℕ) (key buffer : List Byte)
    (engineBoots engineTime salt : ℕ) :
    ((privAES c needByteswap keyBytes).encrypt key buffer engineBoots engineTime salt).bind
        (fun x => (privAES c needByteswap keyBytes).decrypt key x.1 x.2 engineBoots engineTime) =
      if key.length < keyBytes then none else some buffer := by
  cases hencrypt : (privAES c needByteswap keyBytes).encrypt key buffer engineBoots engineTime salt with
  | none =>
    simp only [privAES, PrivAES.encrypt] at hencrypt
    split at hencrypt
    · rename_i hshort
      rw [Option.bind_none, if_pos hshort]
    · cases hencrypt
  | some x =>
    have hlong : ¬ key.length < keyBytes := by
      intro hshort
      simp only [privAES, PrivAES.encrypt, if_pos hshort] at hencrypt
      cases hencrypt
    rw [Option.bind_some, if_neg hlong]
    exact (PrivAES.decrypt_encrypt c hencrypt).2

end SnmpB.Usm
