import SnmpB.Library.CString
import SnmpB.Oid.Text

/-! # The instance part of a printed OID

Where an OID is split, the pointers run over the text of the node and over the text of
the OID. On texts with a character to compare no pointer leaves its text, and behind the
text of a node stands the instance.
-/
namespace SnmpB

namespace CString

/-- The pointers reach what `restOf` computes on the texts. -/
theorem skipCommon_start {b f : List Char} (hb : b ≠ []) (hf : f ≠ []) (hcb : Clean b) (hcf : Clean f) :
    skipCommon (start b) (start f) = some (start (Oid.restOf b f)) := by
  induction b generalizing f with
  | nil => exact absurd rfl hb
  | cons c b ih =>
    obtain ⟨d, f, rfl⟩ := List.exists_cons_of_ne_nil hf
    have hcb : Clean b := fun hmem => hcb (List.mem_cons_of_mem c hmem)
    have hcf : Clean f := fun hmem => hcf (List.mem_cons_of_mem d hmem)
    rw [skipCommon_start_cons hcb hcf, Oid.restOf]
    split
    · next hgoing => exact ih hgoing.2.1 hgoing.2.2 hcb hcf
    · rfl

end CString

namespace Oid

open CString

theorem clean_dotted (oid : Oid) : Clean (dotted oid) := by
  intro hmem
  have hpos := (dotted_ascii hmem).1
  exact absurd hpos (by decide)

/-- What `dotted` puts behind the text of a part of an OID. -/
def instanceText (rest : Oid) : List Char := if rest = [] then [] else '.' :: dotted rest

theorem dotted_append_instanceText {root : Oid} (hroot : root ≠ []) (rest : Oid) :
    dotted (root ++ rest) = dotted root ++ instanceText rest := by
  unfold instanceText
  by_cases hrest : rest = []
  · rw [if_pos hrest, hrest, List.append_nil, List.append_nil]
  · rw [if_neg hrest, dotted_append hroot hrest]

/-- The loop over the text of a node and the text of an OID below it ends at the instance. -/
theorem skipCommon_dotted {root oid : Oid} (hroot : root ≠ []) (h : root <+: oid) :
    ∃ f, dotted oid = dotted root ++ f ∧
      skipCommon (start (dotted root)) (start (dotted oid)) = some (start f) ∧
      (root = oid ∧ f = [] ∨ root ≠ oid ∧ f.head? = some '.') := by
  obtain ⟨rest, rfl⟩ := h
  have htext := dotted_append_instanceText hroot rest
  refine ⟨instanceText rest, htext, ?_, ?_⟩
  · have hclean := clean_dotted (root ++ rest)
    rw [htext] at hclean ⊢
    exact skipCommon_append (dotted_ne_nil hroot) hclean
  · by_cases hrest : rest = []
    · exact Or.inl ⟨by rw [hrest, List.append_nil], if_pos hrest⟩
    · refine Or.inr ⟨fun heq => hrest (List.append_right_eq_self.mp heq.symm), ?_⟩
      rw [instanceText, if_neg hrest]
      rfl

theorem skipCommon_dotted_sysDescr :
    ∃ f, dotted [1, 3, 6, 1, 2, 1, 1, 1, 0] = dotted [1, 3, 6, 1, 2, 1, 1, 1] ++ f ∧
      skipCommon (start (dotted [1, 3, 6, 1, 2, 1, 1, 1])) (start (dotted [1, 3, 6, 1, 2, 1, 1, 1, 0])) =
        some (start f) ∧
      (([1, 3, 6, 1, 2, 1, 1, 1] : Oid) = [1, 3, 6, 1, 2, 1, 1, 1, 0] ∧ f = [] ∨
        ([1, 3, 6, 1, 2, 1, 1, 1] : Oid) ≠ [1, 3, 6, 1, 2, 1, 1, 1, 0] ∧ f.head? = some '.') :=
  skipCommon_dotted (by decide) ⟨[0], rfl⟩

end Oid

end SnmpB
