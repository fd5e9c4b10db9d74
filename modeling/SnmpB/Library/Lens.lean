import Mathlib.Data.List.Basic
import Mathlib.Data.Nat.Notation

/-! # Fields as lenses, and lists of live objects

A field of a record is read and written by a lens. Objects are told apart by
their number, and a list of them names the ones in use: writing a field of one
object leaves the list as it is exactly when the field has the value already.
-/
namespace SnmpB

structure Lens (α β : Type*) where
  get : α → β
  put : β → α → α
  get_put : ∀ v a, get (put v a) = v
  put_get : ∀ a, put (get a) a = a
  put_put : ∀ v w a, put v (put w a) = put v a

namespace Lens

variable {α β γ : Type*}

theorem put_eq_self (l : Lens α β) {v : β} {a : α} : l.put v a = a ↔ l.get a = v := by
  constructor
  · intro h
    rw [← h, l.get_put]
  · rintro rfl
    exact l.put_get a

/-- Writing one field leaves the other alone. -/
def Independent (l : Lens α β) (l' : Lens α γ) : Prop := ∀ v a, l.get (l'.put v a) = l.get a

theorem put_eq_iff {l : Lens α β} {v : β} {a b : α} (h : l.get b = v) : b = a ↔ l.get a = v ∧ b = a := by
  constructor
  · rintro rfl
    exact ⟨h, rfl⟩
  · exact And.right

/-- Two independent writes leave a record alone exactly if each of them does. -/
theorem put_put_eq_self {l : Lens α β} {l' : Lens α γ} (h : l.Independent l') {v : β} {w : γ} {a : α} :
    l'.put w (l.put v a) = a ↔ l.get a = v ∧ l'.get a = w := by
  rw [put_eq_iff ((h w (l.put v a)).trans (l.get_put v a))]
  refine and_congr_right fun hv => ?_
  rw [l.put_eq_self.mpr hv]
  exact l'.put_eq_self

end Lens

namespace Live

variable {α : Type*}

/-- The listed objects, in order. -/
def listed (objects : List α) (order : List ℕ) : List (Option α) := order.map (objects[·]?)

/-- Only the object `k` is rewritten, from `a` to `b`. -/
structure Rewrites (objects objects' : List α) (k : ℕ) (a b : α) : Prop where
  length : objects'.length = objects.length
  before : objects[k]? = some a
  after : objects'[k]? = some b
  others : ∀ j ≠ k, objects'[j]? = objects[j]?

section
variable {objects objects' objects'' : List α} {k : ℕ} {a b c : α}

theorem Rewrites.refl (h : objects[k]? = some a) : Rewrites objects objects k a a :=
  ⟨rfl, h, h, fun _ _ => rfl⟩

theorem Rewrites.trans (h : Rewrites objects objects' k a b) (h' : Rewrites objects' objects'' k b c) :
    Rewrites objects objects'' k a c where
  length := h'.length.trans h.length
  before := h.before
  after := h'.after
  others j hj := (h'.others j hj).trans (h.others j hj)

theorem rewrites_modify (h : objects[k]? = some a) (f : α → α) :
    Rewrites objects (objects.modify k f) k a (f a) where
  length := List.length_modify ..
  before := h
  after := by simp [h]
  others j hj := by
    have hne : k ≠ j := Ne.symm hj
    simp [hne]

/-- The list is the same exactly when the object is. -/
theorem Rewrites.listed_eq_iff (h : Rewrites objects objects' k a b) {order : List ℕ} (hk : k ∈ order) :
    listed objects' order = listed objects order ↔ b = a := by
  constructor
  · intro heq
    have hsame := List.map_inj_left.mp heq k hk
    rw [h.before, h.after] at hsame
    exact Option.some.inj hsame
  · rintro rfl
    apply List.map_congr_left
    intro j _
    by_cases hj : j = k
    · rw [hj, h.after, h.before]
    · exact h.others j hj

/-- Writing what an object has already writes nothing. -/
theorem modify_put_self {β : Type*} (l : Lens α β) (ha : objects[k]? = some a) :
    objects.modify k (l.put (l.get a)) = objects := by
  have hrewrites := rewrites_modify ha (l.put (l.get a))
  apply List.ext_getElem?
  intro j
  by_cases hj : j = k
  · rw [hj, hrewrites.after, ha, l.put_get]
  · exact hrewrites.others j hj

theorem listed_put_iff {β : Type*} (l : Lens α β) {v : β} {order : List ℕ} (hk : k ∈ order)
    (ha : objects[k]? = some a) :
    listed (objects.modify k (l.put v)) order = listed objects order ↔ l.get a = v := by
  rw [(rewrites_modify ha (l.put v)).listed_eq_iff hk]
  exact l.put_eq_self

/-- The object that was created last is written. -/
theorem modify_last (objects : List α) (a : α) (f : α → α) :
    (objects ++ [a]).modify objects.length f = objects ++ [f a] := by
  induction objects with
  | nil => rfl
  | cons b objects ih => simp [ih]

/-- A modified list has its members from the list, one of them changed. -/
theorem mem_modify {f : α → α} (h : a ∈ objects.modify k f) : a ∈ objects ∨ ∃ b ∈ objects, a = f b := by
  obtain ⟨j, hj⟩ := List.mem_iff_getElem?.mp h
  rw [List.getElem?_modify] at hj
  obtain ⟨b, hb, rfl⟩ := Option.map_eq_some_iff.mp hj
  split
  · exact Or.inr ⟨b, List.mem_of_getElem? hb, rfl⟩
  · exact Or.inl (List.mem_of_getElem? hb)

/-- What a change of an object keeps, a change in the list keeps. -/
theorem map_modify {β : Type*} {f : α → β} {g : α → α} (h : ∀ a, f (g a) = f a) (objects : List α) (k : ℕ) :
    (objects.modify k g).map f = objects.map f := by
  apply List.ext_getElem?
  intro j
  rw [List.getElem?_map, List.getElem?_map, List.getElem?_modify]
  cases objects[j]? with
  | none => rfl
  | some a => split <;> simp [h]

theorem listed_length (objects : List α) (order : List ℕ) : (listed objects order).length = order.length :=
  List.length_map ..

end

end Live

end SnmpB
