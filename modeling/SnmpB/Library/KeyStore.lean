import Mathlib.Data.Int.Notation
import Mathlib.Data.Nat.Notation
import Mathlib.Logic.Function.Basic
import Mathlib.Tactic.Common

/-! # Stores with keys in groups

A key is a path of names. What a writer does in a group it does to the store of
the keys below that group, so that the records of a numbered list are written
and read apart from each other.
-/
namespace SnmpB.KeyStore

abbrev Key := List String

abbrev Store (V : Type*) := Key → Option V

/-- How values of one type are stored, and how an entry is read, also a missing one. -/
structure Codec (V α : Type*) where
  encode : α → V
  decode : Option V → α
  decode_encode : ∀ a, decode (some (encode a)) = a

/-- A store keeps values of several types, each of them faithfully. -/
structure Codecs (V : Type*) where
  bool : Codec V Bool
  int : Codec V ℤ
  string : Codec V String

inductive Variant
  | bool (b : Bool)
  | int (n : ℤ)
  | string (text : String)
  deriving DecidableEq, Repr

/-- Values are kept with their type; any other entry reads as the default of the type. -/
def Variant.codecs : Codecs Variant where
  bool := ⟨.bool, fun | some (.bool b) => b | _ => false, fun _ => rfl⟩
  int := ⟨.int, fun | some (.int n) => n | _ => 0, fun _ => rfl⟩
  string := ⟨.string, fun | some (.string text) => text | _ => "", fun _ => rfl⟩

section
variable {V α : Type*}

def empty : Store V := fun _ => none

def setValue (key : Key) (v : V) (s : Store V) : Store V := Function.update s key (some v)

/-- `value`: the entry, or a default where there is none. -/
def value (codec : Codec V α) (key : Key) (default : α) (s : Store V) : α :=
  (s key).elim default fun v => codec.decode (some v)

/-- The keys below a group. -/
def sub (group : String) (s : Store V) : Store V := fun key => s (group :: key)

/-- Something is done to the keys below a group. -/
def inGroup (group : String) (f : Store V → Store V) (s : Store V) : Store V
  | [] => s []
  | name :: key => if name = group then f (sub group s) key else s (name :: key)

/-- The records of a list, in groups that are numbered from `i` on. -/
def writeNumbered (write : α → Store V → Store V) : ℕ → List α → Store V → Store V
  | _, [], s => s
  | i, a :: as, s => writeNumbered write (i + 1) as (inGroup (toString i) (write a) s)

@[simp] theorem sub_inGroup (group : String) (f : Store V → Store V) (s : Store V) :
    sub group (inGroup group f s) = f (sub group s) := by
  funext key
  simp [sub, inGroup]

theorem sub_inGroup_ne {group group' : String} (h : group' ≠ group) (f : Store V → Store V) (s : Store V) :
    sub group' (inGroup group f s) = sub group' s := by
  funext key
  simp [sub, inGroup, h]

theorem inGroup_apply_ne {group name : String} (h : name ≠ group) (f : Store V → Store V) (s : Store V)
    (key : Key) : inGroup group f s (name :: key) = s (name :: key) := by
  simp [inGroup, h]

theorem sub_setValue_ne {group name : String} (h : group ≠ name) (key : Key) (v : V) (s : Store V) :
    sub group (setValue (name :: key) v s) = sub group s := by
  funext key'
  simp [sub, setValue, h]

theorem setValue_same (key : Key) (v : V) (s : Store V) : setValue key v s key = some v := by
  simp [setValue]

theorem setValue_ne {key key' : Key} (h : key' ≠ key) (v : V) (s : Store V) : setValue key v s key' = s key' := by
  simp [setValue, h]

@[simp] theorem value_setValue_same (codec : Codec V α) (key : Key) (default a : α) (s : Store V) :
    value codec key default (setValue key (codec.encode a) s) = a := by
  rw [value, setValue_same]
  exact codec.decode_encode a

@[simp] theorem value_setValue_ne (codec : Codec V α) {key key' : Key} (h : key' ≠ key) (default : α) (v : V)
    (s : Store V) : value codec key' default (setValue key v s) = value codec key' default s := by
  rw [value, value, setValue_ne h]

theorem value_inGroup_ne (codec : Codec V α) {group name : String} (h : name ≠ group) (f : Store V → Store V)
    (key : Key) (default : α) (s : Store V) :
    value codec (name :: key) default (inGroup group f s) = value codec (name :: key) default s := by
  rw [value, value, inGroup_apply_ne h]

theorem number_injective : Function.Injective (toString : ℕ → String) := by
  intro m n h
  have hdigits : Nat.toDigits 10 m = Nat.toDigits 10 n := by
    rw [← Nat.toList_repr, ← Nat.toList_repr]
    exact congrArg String.toList h
  rw [← Nat.ofDigitChars_ten_toDigits (n := m), hdigits, Nat.ofDigitChars_ten_toDigits]

theorem sub_writeNumbered_lt (write : α → Store V → Store V) {i j : ℕ} (h : j < i) (items : List α)
    (s : Store V) : sub (toString j) (writeNumbered write i items s) = sub (toString j) s := by
  induction items generalizing i s with
  | nil => rfl
  | cons a as ih =>
    have hne : toString j ≠ toString i := fun heq => by
      have := number_injective heq
      omega
    rw [writeNumbered, ih (by omega), sub_inGroup_ne hne]

/-- Each record is written in its own group, on what was there before. -/
theorem sub_writeNumbered (write : α → Store V → Store V) {i j : ℕ} {items : List α} {a : α}
    (h : items[j]? = some a) (s : Store V) :
    sub (toString (i + j)) (writeNumbered write i items s) = write a (sub (toString (i + j)) s) := by
  induction items generalizing i j s with
  | nil => simp at h
  | cons b as ih =>
    cases j with
    | zero =>
      obtain rfl : b = a := by simpa using h
      rw [writeNumbered, Nat.add_zero, sub_writeNumbered_lt write (Nat.lt_succ_self i), sub_inGroup]
    | succ j =>
      have hne : toString (i + (j + 1)) ≠ toString i := fun heq => by
        have := number_injective heq
        omega
      have hnext : i + (j + 1) = i + 1 + j := by omega
      rw [writeNumbered, hnext, ih (by simpa using h), ← hnext, sub_inGroup_ne hne]

/-- The groups behind the list stay as they were. -/
theorem sub_writeNumbered_ge (write : α → Store V → Store V) {i j : ℕ} {items : List α}
    (h : items.length ≤ j) (s : Store V) :
    sub (toString (i + j)) (writeNumbered write i items s) = sub (toString (i + j)) s := by
  induction items generalizing i j s with
  | nil => rfl
  | cons b as ih =>
    rw [List.length_cons] at h
    have hne : toString (i + j) ≠ toString i := fun heq => by
      have := number_injective heq
      omega
    obtain ⟨k, rfl⟩ : ∃ k, j = k + 1 := ⟨j - 1, by omega⟩
    have hnext : i + (k + 1) = i + 1 + k := by omega
    rw [writeNumbered, hnext, ih (by omega), ← hnext, sub_inGroup_ne hne]

theorem writeNumbered_apply (write : α → Store V → Store V) {name : String} (hname : ∀ n : ℕ, name ≠ toString n)
    (i : ℕ) (items : List α) (s : Store V) (key : Key) :
    writeNumbered write i items s (name :: key) = s (name :: key) := by
  induction items generalizing i s with
  | nil => rfl
  | cons a as ih => rw [writeNumbered, ih, inGroup_apply_ne (hname i)]

/-- A counted array: what the group had before is removed, and the records are numbered from 1 on. -/
def writeArray (count : Codec V ℤ) (name : String) (write : α → Store V → Store V) (items : List α) :
    Store V → Store V :=
  inGroup name fun _ => setValue ["size"] (count.encode items.length) (writeNumbered write 1 items empty)

/-- The same over what the group had before. -/
def overwriteArray (count : Codec V ℤ) (name : String) (write : α → Store V → Store V) (items : List α) :
    Store V → Store V :=
  inGroup name fun s => setValue ["size"] (count.encode items.length) (writeNumbered write 1 items s)

/-- The groups of the records that the count announces. -/
def records (count : Codec V ℤ) (name : String) (s : Store V) : List (Store V) :=
  (List.range (count.decode (sub name s ["size"])).toNat).map fun i => sub (toString (i + 1)) (sub name s)

/-- A name with anything but digits is no number. -/
theorem ne_toString {name : String} (h : name.toList.any (!·.isDigit) = true) (n : ℕ) : name ≠ toString n := by
  rintro rfl
  obtain ⟨c, hc, hno⟩ := List.any_eq_true.mp h
  have hmem : c ∈ Nat.toDigits 10 n := by
    rw [← Nat.toList_repr]
    exact hc
  have hdigit : c.isDigit = true := Nat.isDigit_of_mem_toDigits (by decide) (by decide) hmem
  rw [hdigit] at hno
  cases hno

/-- The records of a group with a count and a numbered list in it. -/
theorem records_of_sub {count : Codec V ℤ} {name : String} {write : α → Store V → Store V} {items : List α}
    {s s' : Store V}
    (h : sub name s' = setValue ["size"] (count.encode items.length) (writeNumbered write 1 items s)) :
    records count name s' = items.mapIdx fun j a => write a (sub (toString (j + 1)) s) := by
  have hsize : (count.decode (sub name s' ["size"])).toNat = items.length := by
    rw [h, setValue_same, count.decode_encode, Int.toNat_natCast]
  apply List.ext_getElem?
  intro j
  rw [records, hsize, h, List.getElem?_map, List.getElem?_mapIdx]
  by_cases hj : j < items.length
  · have hitem : items[j]? = some items[j] := List.getElem?_eq_getElem hj
    have hrecord := sub_writeNumbered write (i := 1) hitem s
    rw [Nat.add_comm 1 j] at hrecord
    rw [List.getElem?_range hj, hitem, Option.map_some, Option.map_some,
      sub_setValue_ne (ne_toString (by decide) (j + 1)).symm, hrecord]
  · have hge : items.length ≤ j := Nat.le_of_not_lt hj
    simp [hge]

/-- Whatever was stored before, the records written are the records read. -/
theorem records_writeArray (count : Codec V ℤ) (name : String) (write : α → Store V → Store V)
    (items : List α) (s : Store V) :
    records count name (writeArray count name write items s) = items.map (write · empty) := by
  rw [records_of_sub (sub_inGroup name _ s)]
  apply List.ext_getElem?
  intro j
  rw [List.getElem?_mapIdx, List.getElem?_map]
  rfl

/-- An older entry of a record shows through where the record does not write it. -/
theorem records_overwriteArray {β : Type*} (count : Codec V ℤ) (name : String) (write : α → Store V → Store V)
    (read : Store V → β) {f : α → β} (h : ∀ a s, read (write a s) = f a) (items : List α) (s : Store V) :
    (records count name (overwriteArray count name write items s)).map read = items.map f := by
  rw [records_of_sub (sub_inGroup name _ s)]
  apply List.ext_getElem?
  intro j
  rw [List.getElem?_map, List.getElem?_mapIdx, List.getElem?_map, Option.map_map]
  congr 1
  funext a
  exact h a _

end

end SnmpB.KeyStore
