import SnmpB.Ber.Integer
import SnmpB.Oid.Basic

/-! # Object identifiers on the wire

The first two sub-identifiers share one number; every number goes out in groups of seven
bits. The parser does not stop a group that runs on behind the object.
-/
namespace SnmpB.Ber
open Framing Octets

def asnBit8 : Byte := 0x80
def maxOidLen : ℕ := 128
def maxSubid : ℕ := 0xFFFFFFFF

/-! ## Building -/

/-- `testmask` after `k` turns. -/
def testMask (k : ℕ) : ℕ := (0x7F <<< (7 * k)) % 2 ^ 64

/-- The last mask under which a bit is set; after ten turns the mask is zero. -/
def topGroup (subid : ℕ) : ℕ :=
  (List.range 10).foldl (fun top k => if subid &&& testMask k ≠ 0 then k else top) 0

/-- The loop that writes the groups, for the bits `7 * k` of the mask. None where the mask gets past its
last place and the loop does not end. -/
def writeGroups (subid : ℕ) : ℕ → ℕ → Option (List Byte)
  | k, mask =>
    if mask = 0x7F then some [uchar (subid &&& mask)]
    else
      match k with
      | 0 => none
      | k + 1 =>
        -- "fix a mask that got truncated above"
        let mask := if mask = 0x1E00000 then 0xFE00000 else mask
        (writeGroups subid k (mask >>> 7)).map (uchar (((subid &&& mask) >>> (7 * (k + 1))) ||| 0x80) :: ·)

/-- `asn_build_subid`, of an `unsigned long`. -/
def asnBuildSubid (subid : ℕ) : Option (List Byte) :=
  if subid < 127 then some [uchar subid]
  else
    let top := topGroup subid
    writeGroups subid top (testMask top)

/-- The numbers that are written for an OID: `op[1] + (op[0] * 40)` and the others. -/
def oidNumbers (objid : Oid) : List ℕ :=
  match objid.take maxOidLen with
  | first :: second :: rest => (second + first * 40) % 2 ^ 64 :: rest
  | _ => [0]

/-- `asn_build_objid`; the sub-identifiers are `unsigned long`. -/
def asnBuildObjid (type : Byte) (objid : Oid) : Writer Byte := fun datalength => do
  let octets ← (oidNumbers objid).mapM asnBuildSubid
  let buf := octets.flatten
  andThen (asnBuildHeader type buf.length) (put buf) datalength

/-! ## Parsing -/

/-- The groups of one number, and how many there are. -/
def asnParseSubid (subidentifier : ℕ) : List Byte → Option (ℕ × ℕ × List Byte)
  | [] => none
  | b :: bufp =>
    let subidentifier := ((subidentifier <<< 7) + (b &&& ~~~asnBit8).toNat) % 2 ^ 64
    if b &&& asnBit8 ≠ 0 then
      (asnParseSubid subidentifier bufp).map fun (subid, length, bufp) => (subid, length + 1, bufp)
    else some (subidentifier, 1, bufp)

/-- The loop of `asn_parse_objid`, for so many more sub-identifiers and octets. -/
def asnParseSubids : ℕ → ℕ → List Byte → Option (List ℕ × List Byte)
  | 0, _, bufp => some ([], bufp)
  | _ + 1, 0, bufp => some ([], bufp)
  | objidlength + 1, length + 1, bufp => do
    let (subidentifier, taken, bufp) ← asnParseSubid 0 bufp
    if subidentifier > maxSubid then none
    else
      let (subids, bufp) ← asnParseSubids objidlength (length + 1 - taken) bufp
      some (subidentifier :: subids, bufp)

/-- "The first two subidentifiers are encoded into the first component". -/
def firstSubids (subidentifier : ℕ) : List ℕ :=
  if subidentifier = 0x2B then [1, 3]
  else if subidentifier < 40 then [0, subidentifier]
  else if subidentifier < 80 then [1, subidentifier - 40]
  else [2, subidentifier - 80]

/-- The OID that numbers make. -/
def oidOf : List ℕ → Oid
  | [] => [0]
  | first :: rest => firstSubids first ++ rest

/-- `asn_parse_objid`, into a buffer of `objidlength`; "06 00" is one zero. -/
def asnParseObjid (objidlength : ℕ) (c : Cursor) : Option ((Byte × Oid) × Cursor) := do
  let ((type, asnLength), c) ← asnParseContent [asnObjectId] c
  let (subids, bufp) ← asnParseSubids (objidlength - 1) asnLength c.data
  some ((type, oidOf subids), ⟨bufp, c.valid⟩)

/-! ## Groups -/

theorem testMask_eq {k : ℕ} (h : k ≤ 8) : testMask k = (2 ^ 7 - 1) <<< (7 * k) := by
  interval_cases k <;> rfl

theorem and_testMask (subid : ℕ) {k : ℕ} (h : k ≤ 8) :
    (subid &&& testMask k) >>> (7 * k) = subid / 128 ^ k % 128 ∧
      (subid &&& testMask k ≠ 0 ↔ subid / 128 ^ k % 128 ≠ 0) := by
  have hmask : subid &&& testMask k = subid / 128 ^ k % 128 * 2 ^ (7 * k) := by
    rw [testMask_eq h, and_mask, Nat.shiftRight_eq_div_pow, Nat.shiftLeft_eq, pow_mul]
    rfl
  have hpos : 0 < 2 ^ (7 * k) := Nat.two_pow_pos _
  rw [hmask, Nat.shiftRight_eq_div_pow, Nat.mul_div_cancel _ hpos]
  refine ⟨rfl, not_congr ?_⟩
  rw [Nat.mul_eq_zero]
  exact or_iff_left hpos.ne'

/-- A scan that keeps the last place where a test holds. -/
theorem foldl_last {p : ℕ → Prop} [DecidablePred p] {n top start : ℕ} (htop : top < n) (hp : p top)
    (habove : ∀ k, top < k → k < n → ¬ p k) :
    (List.range n).foldl (fun top k => if p k then k else top) start = top := by
  induction n with
  | zero => omega
  | succ n ih =>
    rw [List.range_succ, List.foldl_append, List.foldl_cons, List.foldl_nil]
    by_cases hlast : top = n
    · rw [← hlast, if_pos hp]
    · rw [if_neg (habove n (by omega) (by omega))]
      exact ih (by omega) fun k hk hkn => habove k hk (by omega)

theorem log_le_eight {subid : ℕ} (h : subid < 2 ^ 63) : Nat.log 128 subid ≤ 8 := by
  rcases Nat.eq_zero_or_pos subid with rfl | hpos
  · simp
  · exact Nat.le_of_lt_succ (Nat.log_lt_of_lt_pow (by omega) (by omega))

theorem topGroup_eq {subid : ℕ} (hpos : 0 < subid) (h : subid < 2 ^ 63) : topGroup subid = Nat.log 128 subid := by
  have hlog := log_le_eight h
  have hlow := Nat.pow_log_le_self 128 (by omega : subid ≠ 0)
  have hhigh := lt_pow_groups subid
  refine foldl_last (p := fun k => subid &&& testMask k ≠ 0) (by omega) ?_ fun k hk hten => ?_
  · have hquot : subid / 128 ^ Nat.log 128 subid < 128 := Nat.div_lt_of_lt_mul (by rwa [← pow_succ])
    have hone : 1 ≤ subid / 128 ^ Nat.log 128 subid := (Nat.one_le_div_iff (by positivity)).mpr hlow
    rw [(and_testMask subid hlog).2, Nat.mod_eq_of_lt hquot]
    omega
  · by_cases height : k ≤ 8
    · have hsmall : subid < 128 ^ k := hhigh.trans_le (Nat.pow_le_pow_right (by decide) (by omega))
      rw [(and_testMask subid height).2, Nat.div_eq_of_lt hsmall]
      simp
    · -- the mask is the top bit by then
      have hmask : testMask k = (2 ^ 1 - 1) <<< 63 := by
        rw [show k = 9 by omega]
        rfl
      rw [hmask, and_mask, Nat.shiftRight_eq_div_pow, Nat.div_eq_of_lt h]
      simp

theorem or_0x80 {g : ℕ} (h : g < 128) : g ||| 0x80 = 128 + g := by
  have hall : ∀ g < 128, g ||| 0x80 = 128 + g := by decide +kernel
  exact hall g h

theorem writeGroups_eq (subid : ℕ) {k : ℕ} (h : k ≤ 8) : writeGroups subid k (testMask k) = some (groupsOf k subid) := by
  induction k with
  | zero =>
    have hlast : uchar (subid &&& 0x7F) = BitVec.ofNat 8 (subid % 128) :=
      congrArg uchar (Nat.and_two_pow_sub_one_eq_mod subid 7)
    rw [writeGroups, show testMask 0 = 0x7F from rfl, if_pos rfl, hlast]
    rfl
  | succ k ih =>
    have hmask : testMask (k + 1) ≠ 0x7F ∧ testMask (k + 1) ≠ 0x1E00000 ∧ testMask (k + 1) >>> 7 = testMask k := by
      have hk : k ≤ 7 := by omega
      interval_cases k <;> decide
    have hgroup := (and_testMask subid h).1
    rw [writeGroups, if_neg hmask.1]
    simp only [if_neg hmask.2.1, hmask.2.2, ih (by omega), Option.map_some, hgroup,
      or_0x80 (Nat.mod_lt _ (by decide : 0 < 128))]
    rfl

/-- A number is written in as many groups as it needs. -/
theorem asnBuildSubid_eq {subid : ℕ} (h : subid < 2 ^ 63) : asnBuildSubid subid = some (groups subid) := by
  unfold asnBuildSubid
  split
  · rename_i hsmall
    rw [groups_of_lt (by omega), uchar]
  · dsimp only
    rw [topGroup_eq (by omega) h, writeGroups_eq subid (log_le_eight h)]
    rfl

theorem asnParseSubid_groupsOf (acc k n : ℕ) (rest : List Byte) :
    asnParseSubid acc (groupsOf k n ++ rest) =
      some ((acc * 128 ^ (k + 1) + n % 128 ^ (k + 1)) % 2 ^ 64, k + 1, rest) := by
  induction k generalizing acc with
  | zero =>
    obtain ⟨hand, hlow, -⟩ := noHighBit_and (Nat.mod_lt n (by decide : 0 < 128))
    rw [groupsOf, List.singleton_append, asnParseSubid]
    dsimp only
    rw [show BitVec.ofNat 8 (n % 128) = uchar (n % 128) from rfl, show asnBit8 = asnLongLen from rfl,
      if_neg (not_not.mpr hand), hlow, Nat.shiftLeft_eq, Nat.zero_add, pow_one]
  | succ k ih =>
    obtain ⟨hand, hlow⟩ := highBit_and (Nat.mod_lt (n / 128 ^ (k + 1)) (by decide : 0 < 128))
    rw [groupsOf, List.cons_append, asnParseSubid]
    dsimp only
    rw [show BitVec.ofNat 8 (128 + n / 128 ^ (k + 1) % 128) = uchar (128 + n / 128 ^ (k + 1) % 128) from rfl,
      show asnBit8 = asnLongLen from rfl, if_pos hand, hlow, ih, Option.map_some, Nat.shiftLeft_eq]
    have hsum : ((acc * 2 ^ 7 + n / 128 ^ (k + 1) % 128) % 2 ^ 64 * 128 ^ (k + 1) + n % 128 ^ (k + 1)) % 2 ^ 64 =
        (acc * 128 ^ (k + 1 + 1) + n % 128 ^ (k + 1 + 1)) % 2 ^ 64 := by
      rw [Nat.add_mod, Nat.mod_mul_mod, ← Nat.add_mod]
      congr 1
      rw [pow_succ 128 (k + 1), Nat.mod_mul]
      ring
    rw [hsum]

theorem asnParseSubid_groups {n : ℕ} (h : n < 2 ^ 64) (rest : List Byte) :
    asnParseSubid 0 (groups n ++ rest) = some (n, (groups n).length, rest) := by
  rw [groups, asnParseSubid_groupsOf, Nat.mod_eq_of_lt (lt_pow_groups n), Nat.zero_mul, Nat.zero_add,
    Nat.mod_eq_of_lt h, length_groupsOf]

/-! ## Object identifiers -/

/-- The content of an OID. -/
def oidContent (objid : Oid) : List Byte := (oidNumbers objid).flatMap groups

theorem length_groups_le {n : ℕ} (h : n < 2 ^ 63) : (groups n).length ≤ 9 := by
  have hlog := log_le_eight h
  rw [groups, length_groupsOf]
  omega

theorem length_oidNumbers (objid : Oid) : 1 ≤ (oidNumbers objid).length ∧ (oidNumbers objid).length ≤ maxOidLen - 1 := by
  have hlength : (objid.take maxOidLen).length ≤ maxOidLen := List.length_take_le _ _
  unfold oidNumbers
  split
  · rename_i heq
    rw [heq] at hlength
    simp only [List.length_cons] at hlength ⊢
    omega
  · exact ⟨le_rfl, by decide⟩

theorem length_flatMap_groups {numbers : List ℕ} (h : ∀ n ∈ numbers, n < 2 ^ 63) :
    (numbers.flatMap groups).length ≤ 9 * numbers.length := by
  induction numbers with
  | nil => exact le_rfl
  | cons n numbers ih =>
    obtain ⟨hn, hrest⟩ := List.forall_mem_cons.mp h
    have hle := length_groups_le hn
    have hih := ih hrest
    rw [List.flatMap_cons, List.length_append, List.length_cons]
    omega

theorem length_oidContent {objid : Oid} (h : ∀ n ∈ oidNumbers objid, n < 2 ^ 63) : (oidContent objid).length ≤ 1143 := by
  have hnumbers := (length_oidNumbers objid).2
  have hle := length_flatMap_groups h
  unfold oidContent
  unfold maxOidLen at hnumbers
  omega

theorem mapM_asnBuildSubid {numbers : List ℕ} (h : ∀ n ∈ numbers, n < 2 ^ 63) :
    numbers.mapM asnBuildSubid = some (numbers.map groups) := by
  induction numbers with
  | nil => rfl
  | cons n numbers ih =>
    obtain ⟨hn, hrest⟩ := List.forall_mem_cons.mp h
    rw [List.mapM_cons, asnBuildSubid_eq hn, ih hrest]
    rfl

theorem asnBuildObjid_eq (type : Byte) {objid : Oid} (h : ∀ n ∈ oidNumbers objid, n < 2 ^ 63) :
    asnBuildObjid type objid = put (tlv type (oidContent objid)) := by
  have hlength := length_oidContent h
  funext datalength
  unfold asnBuildObjid
  rw [mapM_asnBuildSubid h]
  simp only [Option.bind_eq_bind, Option.bind_some]
  rw [← List.flatMap_def, ← oidContent, asnBuildHeader_eq type (by omega), put_andThen, tlv, List.cons_append]

theorem asnParseSubids_groups {numbers : List ℕ} (h : ∀ n ∈ numbers, n ≤ maxSubid) {objidlength : ℕ}
    (hlength : numbers.length ≤ objidlength) (rest : List Byte) :
    asnParseSubids objidlength (numbers.flatMap groups).length (numbers.flatMap groups ++ rest) =
      some (numbers, rest) := by
  induction numbers generalizing objidlength with
  | nil => cases objidlength <;> rfl
  | cons n numbers ih =>
    obtain ⟨hn, hothers⟩ := List.forall_mem_cons.mp h
    obtain ⟨objidlength, rfl⟩ : ∃ k, objidlength = k + 1 := ⟨objidlength - 1, by rw [List.length_cons] at hlength; omega⟩
    have hpos := List.length_pos_of_ne_nil (groupsOf_ne_nil (Nat.log 128 n) n)
    rw [← groups] at hpos
    obtain ⟨taken, htaken⟩ : ∃ k, (groups n).length + (numbers.flatMap groups).length = k + 1 :=
      ⟨(groups n).length + (numbers.flatMap groups).length - 1, by omega⟩
    have hleft : taken + 1 - (groups n).length = (numbers.flatMap groups).length := by omega
    have hword : n < 2 ^ 64 := by
      unfold maxSubid at hn
      omega
    rw [List.length_cons] at hlength
    rw [List.flatMap_cons, List.append_assoc, List.length_append, htaken, asnParseSubids, asnParseSubid_groups hword]
    simp only [Option.bind_eq_bind, Option.bind_some, if_neg (not_lt.mpr hn), hleft]
    rw [ih hothers (by omega)]
    rfl

/-- A number that is too large stops the parser. -/
theorem asnParseSubids_large {numbers : List ℕ} (h : ∀ n ∈ numbers, n < 2 ^ 63) {n : ℕ} (hn : n ∈ numbers)
    (hlarge : maxSubid < n) {objidlength : ℕ} (hlength : numbers.length ≤ objidlength) (rest : List Byte) :
    asnParseSubids objidlength (numbers.flatMap groups).length (numbers.flatMap groups ++ rest) = none := by
  induction numbers generalizing objidlength with
  | nil => cases hn
  | cons first numbers ih =>
    obtain ⟨hfirst, hothers⟩ := List.forall_mem_cons.mp h
    obtain ⟨objidlength, rfl⟩ : ∃ k, objidlength = k + 1 := ⟨objidlength - 1, by rw [List.length_cons] at hlength; omega⟩
    have hpos := List.length_pos_of_ne_nil (groupsOf_ne_nil (Nat.log 128 first) first)
    rw [← groups] at hpos
    obtain ⟨taken, htaken⟩ : ∃ k, (groups first).length + (numbers.flatMap groups).length = k + 1 :=
      ⟨(groups first).length + (numbers.flatMap groups).length - 1, by omega⟩
    have hleft : taken + 1 - (groups first).length = (numbers.flatMap groups).length := by omega
    rw [List.length_cons] at hlength
    rw [List.flatMap_cons, List.append_assoc, List.length_append, htaken, asnParseSubids,
      asnParseSubid_groups (by omega)]
    simp only [Option.bind_eq_bind, Option.bind_some, hleft]
    split
    · rfl
    · rename_i hsmall
      rcases List.mem_cons.mp hn with rfl | htail
      · exact absurd hlarge hsmall
      · rw [ih hothers htail (by omega)]
        rfl

theorem asnParseObjid_reads {objid : Oid} (h : ∀ n ∈ oidNumbers objid, n ≤ maxSubid) :
    Reads (asnParseObjid maxOidLen) (tlv asnObjectId (oidContent objid)) (asnObjectId, oidOf (oidNumbers objid)) := by
  intro rest n hn
  have hlength := length_oidContent fun n hn => (h n hn).trans_lt (by decide)
  unfold asnParseObjid
  rw [asnParseContent_tlv (List.mem_singleton_self _) (by unfold maxLength; omega) rest hn]
  simp only [Option.bind_eq_bind, Option.bind_some, oidContent, asnParseSubids_groups h (length_oidNumbers objid).2]

/-- The OIDs that the wire has a form for. -/
def OidEncodable : Oid → Prop
  | first :: second :: rest =>
    rest.length + 2 ≤ maxOidLen ∧ (first = 2 ∨ first < 2 ∧ second < 40) ∧ second + first * 40 ≤ maxSubid ∧
      ∀ n ∈ rest, n ≤ maxSubid
  | _ => False

instance (objid : Oid) : Decidable (OidEncodable objid) := by
  unfold OidEncodable
  split <;> infer_instance

theorem firstSubids_eq_iff {first second n : ℕ} :
    firstSubids n = [first, second] ↔ n = second + first * 40 ∧ (first = 2 ∨ first < 2 ∧ second < 40) := by
  unfold firstSubids
  split
  · simp only [List.cons.injEq, and_true]
    omega
  · split
    · simp only [List.cons.injEq, and_true]
      omega
    · split
      · simp only [List.cons.injEq, and_true]
        omega
      · simp only [List.cons.injEq, and_true]
        omega

theorem length_firstSubids (n : ℕ) : (firstSubids n).length = 2 := by
  unfold firstSubids
  split
  · rfl
  · split
    · rfl
    · split <;> rfl

theorem length_oidOf_oidNumbers (objid : Oid) : (oidOf (oidNumbers objid)).length = (oidNumbers objid).length + 1 := by
  cases hnumbers : oidNumbers objid with
  | nil =>
    have hpos := (length_oidNumbers objid).1
    rw [hnumbers, List.length_nil] at hpos
    omega
  | cons first rest =>
    rw [oidOf, List.length_append, length_firstSubids, List.length_cons]
    omega

theorem oidNumbers_cons {first second : ℕ} {rest : Oid} (h : rest.length + 2 ≤ maxOidLen) :
    oidNumbers (first :: second :: rest) = (second + first * 40) % 2 ^ 64 :: rest := by
  have htake : (first :: second :: rest).take maxOidLen = first :: second :: rest := by
    apply List.take_of_length_le
    rw [List.length_cons, List.length_cons]
    omega
  unfold oidNumbers
  rw [htake]

theorem OidEncodable.numbers {objid : Oid} (h : OidEncodable objid) :
    (∀ n ∈ oidNumbers objid, n ≤ maxSubid) ∧ oidOf (oidNumbers objid) = objid := by
  match objid, h with
  | first :: second :: rest, ⟨hlength, hfirst, hsum, hrest⟩ =>
    have hmod : (second + first * 40) % 2 ^ 64 = second + first * 40 :=
      Nat.mod_eq_of_lt (by unfold maxSubid at hsum; omega)
    rw [oidNumbers_cons hlength, hmod, oidOf, firstSubids_eq_iff.mpr ⟨rfl, hfirst⟩]
    exact ⟨List.forall_mem_cons.mpr ⟨hsum, hrest⟩, rfl⟩

theorem OidEncodable.numbers_lt {objid : Oid} (h : OidEncodable objid) : ∀ n ∈ oidNumbers objid, n < 2 ^ 63 :=
  fun n hn => (h.numbers.1 n hn).trans_lt (by decide)

theorem OidEncodable.of_numbers {objid : Oid} (h : ∀ n ∈ oidNumbers objid, n ≤ maxSubid)
    (heq : oidOf (oidNumbers objid) = objid) : OidEncodable objid := by
  obtain ⟨hlow, hhigh⟩ := length_oidNumbers objid
  have hlength := length_oidOf_oidNumbers objid
  rw [heq] at hlength
  match objid with
  | [] => simp at hlength
  | [_] =>
    rw [List.length_singleton] at hlength
    omega
  | first :: second :: rest =>
    have hle : rest.length + 2 ≤ maxOidLen := by
      rw [List.length_cons, List.length_cons] at hlength
      omega
    rw [oidNumbers_cons hle] at h heq
    obtain ⟨hsum, hrest⟩ := List.forall_mem_cons.mp h
    obtain ⟨hn, hfirst⟩ := firstSubids_eq_iff.mp (List.append_cancel_right heq)
    exact ⟨hle, hfirst, hn ▸ hsum, hrest⟩

/-! ## What is accepted -/

theorem asnParseSubids_bounds {objidlength length : ℕ} {bufp rest : List Byte} {subids : List ℕ}
    (h : asnParseSubids objidlength length bufp = some (subids, rest)) :
    subids.length ≤ objidlength ∧ ∀ n ∈ subids, n ≤ maxSubid := by
  induction objidlength generalizing length bufp subids with
  | zero =>
    cases h
    exact ⟨le_rfl, by simp⟩
  | succ objidlength ih =>
    cases length with
    | zero =>
      cases h
      exact ⟨Nat.zero_le _, by simp⟩
    | succ length =>
      rw [asnParseSubids] at h
      obtain ⟨⟨n, taken, bufp'⟩, -, h⟩ := Option.bind_eq_some_iff.mp h
      dsimp only at h
      split at h
      · cases h
      · rename_i hsmall
        obtain ⟨⟨others, rest'⟩, hothers, h⟩ := Option.bind_eq_some_iff.mp h
        cases h
        obtain ⟨hlength, hbound⟩ := ih hothers
        refine ⟨?_, List.forall_mem_cons.mpr ⟨not_lt.mp hsmall, hbound⟩⟩
        exact Nat.succ_le_succ hlength

theorem oidOf_bounds {subids : List ℕ} (h : ∀ n ∈ subids, n ≤ maxSubid) :
    (∀ n ∈ oidOf subids, n ≤ maxSubid) ∧ (oidOf subids).headD 0 ≤ 2 ∧ oidOf subids ≠ [] := by
  cases subids with
  | nil => simp [oidOf]
  | cons first rest =>
    obtain ⟨hfirst, hrest⟩ := List.forall_mem_cons.mp h
    have htwo : ∃ x y, firstSubids first = [x, y] ∧ x ≤ 2 ∧ y ≤ maxSubid := by
      unfold maxSubid at hfirst ⊢
      unfold firstSubids
      split
      · exact ⟨1, 3, rfl, by omega, by omega⟩
      · split
        · exact ⟨0, first, rfl, by omega, by omega⟩
        · split
          · exact ⟨1, first - 40, rfl, by omega, by omega⟩
          · exact ⟨2, first - 80, rfl, by omega, by omega⟩
    obtain ⟨x, y, hxy, hx, hy⟩ := htwo
    rw [oidOf, hxy]
    have hx' : x ≤ maxSubid := hx.trans (by decide)
    exact ⟨List.forall_mem_cons.mpr ⟨hx', List.forall_mem_cons.mpr ⟨hy, hrest⟩⟩, hx, by simp⟩

/-- An OID that is accepted fits into its buffer, and so do its sub-identifiers into theirs. -/
theorem asnParseObjid_bounds {objidlength : ℕ} (hpos : 2 ≤ objidlength) {c c' : Cursor} {type : Byte} {objid : Oid}
    (h : asnParseObjid objidlength c = some ((type, objid), c')) :
    objid ≠ [] ∧ objid.length ≤ objidlength ∧ objid.headD 0 ≤ 2 ∧ ∀ n ∈ objid, n ≤ maxSubid := by
  obtain ⟨⟨⟨type', asnLength⟩, c₁⟩, -, h⟩ := Option.bind_eq_some_iff.mp h
  obtain ⟨⟨subids, bufp⟩, hsubids, h⟩ := Option.bind_eq_some_iff.mp h
  cases h
  obtain ⟨hlength, hbound⟩ := asnParseSubids_bounds hsubids
  obtain ⟨hall, hhead, hne⟩ := oidOf_bounds hbound
  refine ⟨hne, ?_, hhead, hall⟩
  cases subids with
  | nil =>
    rw [oidOf, List.length_singleton]
    omega
  | cons first rest =>
    rw [List.length_cons] at hlength
    rw [oidOf, List.length_append, length_firstSubids]
    omega

theorem oidNumbers_lt {objid : Oid} (hhead : objid.headD 0 ≤ 2) (h : ∀ n ∈ objid, n ≤ maxSubid) :
    ∀ n ∈ oidNumbers objid, n < 2 ^ 63 := by
  have htake : ∀ n ∈ objid.take maxOidLen, n ≤ maxSubid := fun n hn => h n (List.mem_of_mem_take hn)
  unfold oidNumbers
  split
  · rename_i first second rest heq
    rw [heq] at htake
    obtain ⟨-, htail⟩ := List.forall_mem_cons.mp htake
    obtain ⟨hsecond, hrest⟩ := List.forall_mem_cons.mp htail
    have hfirst : first ≤ 2 := by
      cases objid with
      | nil => cases heq
      | cons x xs =>
        rw [show maxOidLen = 127 + 1 from rfl, List.take_succ_cons, List.cons.injEq] at heq
        exact heq.1 ▸ hhead
    unfold maxSubid at hsecond hrest
    refine List.forall_mem_cons.mpr ⟨?_, fun n hn => (hrest n hn).trans_lt (by decide)⟩
    rw [Nat.mod_eq_of_lt (by omega)]
    omega
  · simp

/-- An OID can be written and read back unchanged exactly if it is one that the wire has a form for. -/
theorem objid_survives_iff (objid : Oid) (rest : List Byte) :
    ((asnBuildObjid asnObjectId objid 4096).bind fun x =>
        (asnParseObjid maxOidLen ⟨x.1 ++ rest, x.1.length⟩).map fun y => y.1.2) = some objid ↔ OidEncodable objid := by
  by_cases hword : ∀ n ∈ oidNumbers objid, n < 2 ^ 63
  · have hlength := length_oidContent hword
    have hfits : (tlv asnObjectId (oidContent objid)).length ≤ 4096 := by
      rw [length_tlv]
      have hheader := length_lengthOctets_le (by omega : (oidContent objid).length < 2 ^ 32)
      omega
    rw [asnBuildObjid_eq asnObjectId hword, put_of_le hfits]
    simp only [Option.bind_some]
    by_cases hsmall : ∀ n ∈ oidNumbers objid, n ≤ maxSubid
    · rw [(asnParseObjid_reads hsmall).exact]
      simp only [Option.map_some, Option.some.injEq]
      exact ⟨OidEncodable.of_numbers hsmall, fun h => h.numbers.2⟩
    · refine iff_of_false (fun h => ?_) fun h => hsmall h.numbers.1
      obtain ⟨n, hn, hlarge⟩ : ∃ n ∈ oidNumbers objid, maxSubid < n := by simpa using hsmall
      unfold asnParseObjid at h
      rw [asnParseContent_tlv (List.mem_singleton_self _) (by unfold maxLength; omega) rest le_rfl] at h
      simp only [Option.bind_eq_bind, Option.bind_some, oidContent,
        asnParseSubids_large hword hn hlarge (length_oidNumbers objid).2] at h
      cases h
  · refine iff_of_false (fun h => ?_) fun h => hword h.numbers_lt
    obtain ⟨x, -, hparse⟩ := Option.bind_eq_some_iff.mp h
    obtain ⟨⟨⟨type, objid'⟩, c'⟩, hobjid, heq⟩ := Option.map_eq_some_iff.mp hparse
    cases heq
    obtain ⟨-, -, hhead, hbound⟩ := asnParseObjid_bounds (by decide) hobjid
    exact hword (oidNumbers_lt hhead hbound)

end SnmpB.Ber
