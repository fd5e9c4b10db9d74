import SnmpB.Library.Lens
import Mathlib.Data.List.Induction
import Mathlib.Data.List.Nodup

/-! # Gathering events into rows

Every event has a key. The first event of a key opens a row at the end, and each
later one is added to the first row that has the key.
-/
namespace SnmpB.Gathering

section Firsts
variable {α : Type*} [DecidableEq α]

theorem eraseDups_concat (l : List α) (a : α) :
    (l ++ [a]).eraseDups = if a ∈ l then l.eraseDups else l.eraseDups ++ [a] := by
  rw [List.eraseDups_append]
  by_cases ha : a ∈ l <;> simp [List.removeAll, ha, List.eraseDups_cons]

theorem nodup_eraseDups (l : List α) : l.eraseDups.Nodup := by
  induction l using List.reverseRecOn with
  | nil => exact List.nodup_nil
  | append_singleton l a ih =>
    rw [eraseDups_concat]
    split
    · exact ih
    · rename_i ha
      exact List.nodup_append.mpr ⟨ih, List.nodup_singleton a, by
        rintro b hb c hc rfl
        exact ha (List.mem_eraseDups.mp (List.mem_singleton.mp hc ▸ hb))⟩

end Firsts

variable {ε κ ρ : Type*} [DecidableEq κ] (key : ε → κ) (rowKey : ρ → κ) (fresh : ε → ρ) (add : ρ → ε → ρ)

def gather (rows : List ρ) (e : ε) : List ρ :=
  match rows.findIdx? fun row => decide (rowKey row = key e) with
  | some i => rows.modify i (add · e)
  | none => rows ++ [fresh e]

/-- One row for every key, in the order of the first events, made of the events of the key. -/
structure Gathered (es : List ε) (rows : List ρ) : Prop where
  keys : rows.map rowKey = (es.map key).eraseDups
  made : ∀ row ∈ rows, ∃ e rest, es.filter (fun e => decide (key e = rowKey row)) = e :: rest ∧
    row = rest.foldl add (fresh e)

variable {key rowKey fresh add}

theorem filter_concat_other {es : List ε} {e : ε} {k : κ} (h : key e ≠ k) :
    (es ++ [e]).filter (fun e => decide (key e = k)) = es.filter fun e => decide (key e = k) := by
  simp [h]

theorem filter_concat_same (es : List ε) (e : ε) :
    (es ++ [e]).filter (fun e' => decide (key e' = key e)) =
      es.filter (fun e' => decide (key e' = key e)) ++ [e] := by
  simp

theorem Gathered.mem_keys {es : List ε} {rows : List ρ} (h : Gathered key rowKey fresh add es rows) {k : κ} :
    k ∈ rows.map rowKey ↔ k ∈ es.map key := by
  rw [h.keys, List.mem_eraseDups]

theorem gathered_modify (hadd : ∀ row e, rowKey (add row e) = rowKey row) {es : List ε} {rows : List ρ}
    (h : Gathered key rowKey fresh add es rows) {e : ε} {i : ℕ} (hlt : i < rows.length)
    (hkey : rowKey rows[i] = key e) : Gathered key rowKey fresh add (es ++ [e]) (rows.modify i (add · e)) := by
  have hnodup : (rows.map rowKey).Nodup := h.keys ▸ nodup_eraseDups _
  constructor
  · have hold : key e ∈ es.map key :=
      h.mem_keys.mp (List.mem_map.mpr ⟨rows[i], List.getElem_mem hlt, hkey⟩)
    rw [Live.map_modify (hadd · e), h.keys, List.map_append, List.map_singleton, eraseDups_concat, if_pos hold]
  · intro row hrow
    obtain ⟨k, hk⟩ := List.mem_iff_getElem?.mp hrow
    by_cases hik : i = k
    · subst hik
      rw [List.getElem?_modify_eq, List.getElem?_eq_getElem hlt] at hk
      cases hk
      obtain ⟨first, rest, hfilter, hmade⟩ := h.made _ (List.getElem_mem hlt)
      refine ⟨first, rest ++ [e], ?_, ?_⟩
      · rw [hadd, hkey, filter_concat_same, ← hkey, hfilter, List.cons_append]
      · rw [List.foldl_concat, ← hmade]
    · rw [List.getElem?_modify_ne _ _ hik] at hk
      obtain ⟨hlt', hrow'⟩ := List.getElem?_eq_some_iff.mp hk
      have hother : key e ≠ rowKey row := by
        rw [← hkey, ← hrow']
        intro heq
        apply hik
        have hsame : (rows.map rowKey)[i]? = (rows.map rowKey)[k]? := by
          rw [List.getElem?_map, List.getElem?_map, List.getElem?_eq_getElem hlt, List.getElem?_eq_getElem hlt',
            Option.map_some, Option.map_some, heq]
        exact (List.getElem?_inj (by simpa using hlt) hnodup).mp hsame
      rw [filter_concat_other hother]
      exact h.made row (List.mem_of_getElem? hk)

theorem gathered_append (hfresh : ∀ e, rowKey (fresh e) = key e) {es : List ε} {rows : List ρ}
    (h : Gathered key rowKey fresh add es rows) {e : ε} (hnew : key e ∉ rows.map rowKey) :
    Gathered key rowKey fresh add (es ++ [e]) (rows ++ [fresh e]) := by
  have hnone : key e ∉ es.map key := h.mem_keys.not.mp hnew
  constructor
  · rw [List.map_append, List.map_singleton, hfresh, h.keys, List.map_append, List.map_singleton, eraseDups_concat,
      if_neg hnone]
  · intro row hrow
    rcases List.mem_append.mp hrow with hrow | hrow
    · have hother : key e ≠ rowKey row := by
        intro heq
        exact hnew (heq ▸ List.mem_map_of_mem hrow)
      rw [filter_concat_other hother]
      exact h.made row hrow
    · rw [List.mem_singleton.mp hrow]
      refine ⟨e, [], ?_, rfl⟩
      have hempty : es.filter (fun e' => decide (key e' = key e)) = [] := by
        rw [List.filter_eq_nil_iff]
        intro e' he' heq
        exact hnone (of_decide_eq_true heq ▸ List.mem_map_of_mem he')
      rw [hfresh, filter_concat_same, hempty, List.nil_append]

theorem gathered_concat (hfresh : ∀ e, rowKey (fresh e) = key e) (hadd : ∀ row e, rowKey (add row e) = rowKey row)
    {es : List ε} {rows : List ρ} (h : Gathered key rowKey fresh add es rows) (e : ε) :
    Gathered key rowKey fresh add (es ++ [e]) (gather key rowKey fresh add rows e) := by
  rw [gather]
  split
  · rename_i i hi
    obtain ⟨hlt, hkey, -⟩ := List.findIdx?_eq_some_iff_getElem.mp hi
    exact gathered_modify hadd h hlt (of_decide_eq_true hkey)
  · rename_i hnone
    apply gathered_append hfresh h
    intro hin
    obtain ⟨row, hrow, heq⟩ := List.mem_map.mp hin
    rw [List.findIdx?_eq_none_iff] at hnone
    exact of_decide_eq_false (hnone row hrow) heq

theorem foldl_gather (hfresh : ∀ e, rowKey (fresh e) = key e) (hadd : ∀ row e, rowKey (add row e) = rowKey row)
    (es : List ε) : Gathered key rowKey fresh add es (es.foldl (gather key rowKey fresh add) []) := by
  induction es using List.reverseRecOn with
  | nil => exact ⟨rfl, fun row hrow => absurd hrow List.not_mem_nil⟩
  | append_singleton es e ih =>
    rw [List.foldl_concat]
    exact gathered_concat hfresh hadd ih e

end SnmpB.Gathering
