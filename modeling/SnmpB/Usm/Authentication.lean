import SnmpB.Ber.Header

/-! # Digests

A digest of the whole message stands in the message itself. It is computed over the message
with zeros in its place, and only its first octets are sent. The key comes from a password
that is stretched, hashed and hashed again together with the engine it is for.
-/
namespace SnmpB.Usm
open Octets
open SnmpB.Ber (Byte)

/-- A hash function with the sizes the code knows of it: what `init`, `update` and `final` give for
the octets of all updates. -/
structure Hasher where
  blockSize : ℕ
  keyLength : ℕ
  hash : List Byte → List Byte
  keyLength_pos : 0 < keyLength
  length_hash : ∀ data, (hash data).length = keyLength

/-- An authentication protocol. -/
structure Auth where
  hasher : Hasher
  authParamsLen : ℕ
  fits : authParamsLen ≤ hasher.keyLength

/-! ## Keys -/

/-- The password is repeated up to a megabyte. -/
def stretch (password : List Byte) : List Byte :=
  (List.range 1048576).map fun i => password.getD (i % password.length) 0

namespace Auth

/-- `password_to_key`. -/
def passwordToKey (a : Auth) (password engineId : List Byte) : List Byte :=
  let key := a.hasher.hash (stretch password)
  a.hasher.hash (key ++ engineId ++ key)

/-! ## The digest -/

/-- The key under a pad of one block. -/
def keyPad (a : Auth) (pad : Byte) (key : List Byte) : List Byte :=
  (List.range a.hasher.blockSize).map fun i => pad ^^^ if i < a.hasher.keyLength then key.getD i 0 else 0

def hmac (a : Auth) (key msg : List Byte) : List Byte :=
  a.hasher.hash (a.keyPad 0x5c key ++ a.hasher.hash (a.keyPad 0x36 key ++ msg))

end Auth

/-- Octets are copied over a part of a message; none where it is not inside. -/
def overwrite (msg : List Byte) (position : ℕ) (octets : List Byte) : Option (List Byte) :=
  if position + octets.length ≤ msg.length then
    some (msg.take position ++ octets ++ msg.drop (position + octets.length))
  else none

def slice (msg : List Byte) (position length : ℕ) : List Byte := (msg.drop position).take length

namespace Auth

/-- `auth_out_msg`: the message with the digest in it. -/
def authOutMsg (a : Auth) (key msg : List Byte) (position : ℕ) : Option (List Byte) := do
  let zeroed ← overwrite msg position (List.replicate a.authParamsLen 0)
  overwrite zeroed position ((a.hmac key zeroed).take a.authParamsLen)

/-- `auth_inc_msg`: whether the digest is the one the sender would have put there. The message is
the same afterwards. -/
def authIncMsg (a : Auth) (key msg : List Byte) (position authParLen : ℕ) : Option Bool :=
  if authParLen ≠ a.authParamsLen then some false
  else do
    let sent ← a.authOutMsg key msg position
    some (slice sent position authParLen = slice msg position authParLen)

end Auth

/-! ## A digest of one's own -/

theorem length_hmac (a : Auth) (key msg : List Byte) : (a.hmac key msg).length = a.hasher.keyLength :=
  a.hasher.length_hash _

theorem overwrite_eq_some {msg octets result : List Byte} {position : ℕ} :
    overwrite msg position octets = some result ↔ position + octets.length ≤ msg.length ∧
      result = msg.take position ++ octets ++ msg.drop (position + octets.length) := by
  unfold overwrite
  split
  · rename_i hle
    rw [Option.some.injEq, eq_comm]
    exact (and_iff_right hle).symm
  · rename_i hnot
    exact iff_of_false (fun h => by cases h) fun h => hnot h.1

section Overwrite
variable {msg octets result : List Byte} {position : ℕ} (h : overwrite msg position octets = some result)
include h

theorem overwrite_length : result.length = msg.length := by
  obtain ⟨hle, rfl⟩ := overwrite_eq_some.mp h
  rw [List.length_append, List.length_append, List.length_take, List.length_drop]
  omega

theorem overwrite_slice : slice result position octets.length = octets := by
  obtain ⟨hle, rfl⟩ := overwrite_eq_some.mp h
  have htake : (msg.take position).length = position := by
    rw [List.length_take]
    omega
  unfold slice
  rw [List.append_assoc, List.drop_left' htake, List.take_left]

/-- Only the place counts that is written to, so writing to it again undoes the first. -/
theorem overwrite_overwrite {again : List Byte} (hlength : again.length = octets.length) :
    overwrite result position again = overwrite msg position again := by
  have hresult := overwrite_length h
  obtain ⟨hle, heq⟩ := overwrite_eq_some.mp h
  have htake : (msg.take position).length = position := by
    rw [List.length_take]
    omega
  have hfront : (msg.take position ++ octets).length = position + octets.length := by
    rw [List.length_append, htake]
  have hbefore : result.take position = msg.take position := by
    rw [heq, List.append_assoc]
    exact List.take_left' htake
  have hbehind : result.drop (position + octets.length) = msg.drop (position + octets.length) := by
    rw [heq]
    exact List.drop_left' hfront
  unfold overwrite
  rw [hresult, hlength, hbefore, hbehind]

end Overwrite

namespace Auth
variable {a : Auth} {key msg sent : List Byte} {position : ℕ}

theorem length_digest (a : Auth) (key msg : List Byte) :
    ((a.hmac key msg).take a.authParamsLen).length = a.authParamsLen := by
  rw [List.length_take, length_hmac]
  exact Nat.min_eq_left a.fits

theorem authOutMsg_eq_some : a.authOutMsg key msg position = some sent ↔
    ∃ zeroed, overwrite msg position (List.replicate a.authParamsLen 0) = some zeroed ∧
      overwrite zeroed position ((a.hmac key zeroed).take a.authParamsLen) = some sent := by
  unfold authOutMsg
  exact Option.bind_eq_some_iff

/-- The digest depends on nothing that stood in its place. -/
theorem authOutMsg_authOutMsg (h : a.authOutMsg key msg position = some sent) :
    a.authOutMsg key sent position = some sent := by
  obtain ⟨zeroed, hzeroed, hsent⟩ := authOutMsg_eq_some.mp h
  refine authOutMsg_eq_some.mpr ⟨zeroed, ?_, hsent⟩
  have hback : overwrite zeroed position (List.replicate a.authParamsLen 0) =
      overwrite msg position (List.replicate a.authParamsLen 0) := overwrite_overwrite hzeroed rfl
  rw [overwrite_overwrite hsent, hback, hzeroed]
  rw [List.length_replicate, length_digest]

/-- What is sent with a digest is received. -/
theorem authIncMsg_authOutMsg (h : a.authOutMsg key msg position = some sent) :
    a.authIncMsg key sent position a.authParamsLen = some true := by
  unfold authIncMsg
  rw [if_neg (not_not.mpr rfl), authOutMsg_authOutMsg h, Option.bind_eq_bind, Option.bind_some]
  exact congrArg some (decide_eq_true rfl)

/-- A message whose digest is the one its sender would put there is what the sender sends. -/
theorem authOutMsg_of_slice (h : a.authOutMsg key msg position = some sent)
    (hdigest : slice sent position a.authParamsLen = slice msg position a.authParamsLen) : sent = msg := by
  obtain ⟨zeroed, hzeroed, hsent⟩ := authOutMsg_eq_some.mp h
  have hlength := length_digest a key zeroed
  rw [overwrite_overwrite hzeroed (hlength.trans List.length_replicate.symm)] at hsent
  have hslice := overwrite_slice hsent
  obtain ⟨-, heq⟩ := overwrite_eq_some.mp hsent
  rw [hlength] at hslice heq
  rw [heq, ← hslice, hdigest, slice, List.append_assoc, ← List.drop_drop, List.take_append_drop,
    List.take_append_drop]

/-- The messages that are accepted under a key are the messages that are sent under it. -/
theorem authIncMsg_iff_sent (a : Auth) (key msg : List Byte) (position authParLen : ℕ) :
    a.authIncMsg key msg position authParLen = some true ↔
      authParLen = a.authParamsLen ∧ ∃ original, a.authOutMsg key original position = some msg := by
  constructor
  · intro h
    unfold authIncMsg at h
    split at h
    · cases h
    rename_i hlength
    obtain rfl := not_not.mp hlength
    obtain ⟨sent, hsent, hequal⟩ := Option.bind_eq_some_iff.mp h
    have hdigest := of_decide_eq_true (Option.some.inj hequal)
    exact ⟨rfl, msg, authOutMsg_of_slice hsent hdigest ▸ hsent⟩
  · rintro ⟨rfl, original, hsent⟩
    exact authIncMsg_authOutMsg hsent

/-- A checksum in the place of a hash, of which twelve octets are sent. -/
def checksum : Auth where
  hasher :=
    { blockSize := 64
      keyLength := 16
      hash := fun data => List.replicate 16 (data.foldl (· + ·) 0)
      keyLength_pos := by decide
      length_hash := fun _ => List.length_replicate }
  authParamsLen := 12
  fits := by decide

def checksumMessage : List Byte := [0x30, 0x1a] ++ List.replicate 12 0 ++ [0x04, 0x01, 0x61]

theorem authIncMsg_iff_sent_sample : ∃ sent, checksum.authOutMsg (List.replicate 16 7) checksumMessage 2 = some sent ∧
    checksum.authIncMsg (List.replicate 16 7) sent 2 12 = some true ∧
    checksum.authIncMsg (List.replicate 16 7) (sent.set 16 0x62) 2 12 ≠ some true := by
  obtain ⟨sent, hsent⟩ := Option.isSome_iff_exists.mp
    (by decide : (checksum.authOutMsg (List.replicate 16 7) checksumMessage 2).isSome)
  refine ⟨sent, hsent, (authIncMsg_iff_sent checksum _ sent 2 12).mpr ⟨rfl, _, hsent⟩, ?_⟩
  have hchanged : ∀ sent ∈ checksum.authOutMsg (List.replicate 16 7) checksumMessage 2,
      checksum.authIncMsg (List.replicate 16 7) (sent.set 16 0x62) 2 12 ≠ some true := by decide +kernel
  exact hchanged sent hsent

end Auth
end SnmpB.Usm
