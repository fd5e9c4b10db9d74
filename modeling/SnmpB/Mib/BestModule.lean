import SnmpB.Library.RunningBest
import SnmpB.Mib.Module

/-! # Which module `LoadBestModule` picks

The search compares texts and stops at the first improvement a module offers.
It is an instance of the running best scan; the scores of a module are the
lengths of its textual matches, and none at all while it is loaded. The module
returned is a best one exactly if all modules that are not are beaten there.
-/
namespace SnmpB.Mib
open RunningBest

namespace MibState

def Matches (st : MibState) (oid : Oid) (e : TotalEntry) (root : Oid) : Prop :=
  e ∈ st.total ∧ e.file ∈ st.unloaded ∧ root ∈ e.roots ∧ root <+: oid

def OwnsLongest (st : MibState) (oid : Oid) (file : String) : Prop :=
  ∃ e root, st.Matches oid e root ∧ e.file = file ∧
    ∀ e' root', st.Matches oid e' root' → root'.length ≤ root.length

/-- What the search is for: nothing exactly when nothing matches, else an owner of a
longest matching root. -/
def BestModule (st : MibState) (oid : Oid) (file : String) : Prop :=
  (file = "" ↔ ¬∃ e root, st.Matches oid e root) ∧ (file ≠ "" → st.OwnsLongest oid file)

/-- Automatic loading is on, and a prompt is accepted. -/
def LoadingEnabled (st : MibState) : Prop :=
  st.automaticLoading ≠ 3 ∧ st.policy ≠ .mibloadNone ∧
  (st.automaticLoading = 2 → st.policy ≠ .mibloadAll →
    st.answer st.prompts ∉ [StandardButton.no, StandardButton.noToAll])

instance (st : MibState) : Decidable st.LoadingEnabled :=
  inferInstanceAs (Decidable (_ ∧ _ ∧ _))

/-- The lengths of the textual matches of an unloaded module, in the order of its items. -/
def matchLengths (unloaded : List String) (oid : String) (e : TotalEntry) : List ℕ :=
  if unloaded.contains e.file then (e.items.filter (startsWith oid)).map String.length else []

theorem find?_matchLengths (items : List String) (oid : String) (best : ℕ) :
    ((items.filter (startsWith oid)).map String.length).find? (fun s => decide (best < s)) =
      (items.find? fun item => startsWith oid item && decide (best < item.length)).map
        String.length := by
  rw [List.find?_map, List.find?_filter]
  simp only [Function.comp_apply, Bool.decide_and, Bool.decide_eq_true]

def SameBest (best : String × String) (o : Option TotalEntry × ℕ) : Prop :=
  best.1 = (o.1.map TotalEntry.file).getD "" ∧ best.2.length = o.2

theorem matchEntry_offer (unloaded : List String) (oid : String) (e : TotalEntry)
    {best : String × String} {o : Option TotalEntry × ℕ} (h : SameBest best o) :
    SameBest (matchEntry unloaded oid best e) (offer (matchLengths unloaded oid) o e) := by
  cases hloaded : unloaded.contains e.file with
  | false =>
    have hmatch : matchEntry unloaded oid best e = best := by
      unfold matchEntry
      simp only [hloaded, Bool.false_eq_true, ↓reduceIte]
      split <;> rfl
    have hscore : matchLengths unloaded oid e = [] := by
      simp only [matchLengths, hloaded, Bool.false_eq_true, ↓reduceIte]
    rw [hmatch, offer_of_le (by simp [hscore])]
    exact h
  | true =>
    have hscore : matchLengths unloaded oid e = (e.items.filter (startsWith oid)).map String.length := by
      simp only [matchLengths, hloaded, ↓reduceIte]
    unfold matchEntry offer
    rw [hscore, find?_matchLengths, ← h.2]
    cases e.items.find? fun item => startsWith oid item && decide (best.2.length < item.length) with
    | none => exact h
    | some item =>
      simp only [hloaded, ↓reduceIte, Option.map_some]
      exact ⟨rfl, rfl⟩

/-- The search is the running best scan. -/
theorem foldl_matchEntry (unloaded : List String) (oid : String) (total : List TotalEntry)
    {best : String × String} {o : Option TotalEntry × ℕ} (h : SameBest best o) :
    SameBest (total.foldl (matchEntry unloaded oid) best)
      (total.foldl (offer (matchLengths unloaded oid)) o) := by
  induction total generalizing best o with
  | nil => exact h
  | cons e total ih => exact ih (matchEntry_offer unloaded oid e h)

theorem bestMatch_eq (st : MibState) (oid : String) :
    (st.bestMatch oid).1 =
      ((st.total.foldl (offer (matchLengths st.unloaded oid)) (none, 0)).1.map TotalEntry.file).getD
        "" :=
  (foldl_matchEntry st.unloaded oid st.total ⟨rfl, rfl⟩).1

theorem loadBestModule_fst {st : MibState} (h : st.LoadingEnabled) (oid : String) :
    (st.loadBestModule oid).1 = (st.bestMatch oid).1 := by
  obtain ⟨hmode, hpolicy, hanswer⟩ := h
  unfold loadBestModule
  rw [if_neg (by simp [hmode, hpolicy])]
  simp only
  split
  · rename_i hempty
    exact hempty.symm
  · split
    · rename_i hprompt
      have hbutton := hanswer hprompt.1 hprompt.2
      cases hret : st.answer st.prompts with
      | no => simp [hret] at hbutton
      | noToAll => simp [hret] at hbutton
      | yes => rfl
      | yesToAll => rfl
      | other => rfl
    · rfl

/-- A root that is a prefix by sub-identifiers is one by text. -/
theorem matchLengths_of_matches {st : MibState} {oid : Oid} {e : TotalEntry} {root : Oid}
    (h : st.Matches oid e root) :
    ∃ s ∈ matchLengths st.unloaded oid.getPrintable e, 0 < s := by
  obtain ⟨-, hunloaded, hroot, hbegins⟩ := h
  have hne : Oid.dotted root ≠ [] := Oid.dotted_ne_nil (e.roots_ne root hroot)
  have htext : root.getPrintable ≠ "" := fun hempty => hne (String.ofList_eq_empty_iff.mp hempty)
  refine ⟨root.getPrintable.length, ?_, Nat.pos_of_ne_zero fun hzero => htext (String.length_eq_zero_iff.mp hzero)⟩
  rw [matchLengths, if_pos (List.contains_iff_mem.mpr hunloaded)]
  refine List.mem_map_of_mem (List.mem_filter.mpr ⟨?_, ?_⟩)
  · exact List.mem_cons_of_mem _ (List.mem_map_of_mem hroot)
  · rw [startsWith, Bool.and_eq_true, bne_iff_ne, List.isPrefixOf_iff_prefix]
    refine ⟨htext, ?_⟩
    simpa only [Oid.getPrintable, String.toList_ofList] using Oid.dotted_prefix hbegins

/-- Every module that owns no longest matching root is beaten on the texts: each of its matches is
covered by the modules before, stands behind a match of its own that is not, or is shorter than a
match of a module after it. -/
def RivalsBeaten (st : MibState) (oid : Oid) : Prop :=
  ∀ before e after, st.total = before ++ e :: after → ¬st.OwnsLongest oid e.file →
    Beaten (matchLengths st.unloaded oid.getPrintable) 0 before e after

theorem bestModule_iff (st : MibState) (oid : Oid) :
    st.BestModule oid (st.bestMatch oid.getPrintable).1 ↔ st.RivalsBeaten oid := by
  rw [bestMatch_eq]
  constructor
  · intro hbest before e after htotal hrival
    by_contra hnot
    rw [foldl_offer_winner.mpr ⟨before, after, htotal, hnot⟩] at hbest
    exact hrival (hbest.2 e.file_ne)
  · intro hrivals
    cases hwinner : (st.total.foldl (offer (matchLengths st.unloaded oid.getPrintable)) (none, 0)).1 with
    | none =>
      refine ⟨iff_of_true rfl ?_, fun hne => absurd rfl hne⟩
      rintro ⟨e, root, hmatch⟩
      obtain ⟨s, hs, hpos⟩ := matchLengths_of_matches hmatch
      exact absurd ((foldl_offer_none hwinner).2 e hmatch.1 s hs) (Nat.not_le_of_lt hpos)
    | some w =>
      obtain ⟨before, after, htotal, hnot⟩ := foldl_offer_winner.mp hwinner
      have howns : st.OwnsLongest oid w.file := by
        by_contra hrival
        exact hnot (hrivals before w after htotal hrival)
      have hmatches : ∃ e root, st.Matches oid e root := by
        obtain ⟨e, root, hmatch, -⟩ := howns
        exact ⟨e, root, hmatch⟩
      exact ⟨iff_of_false w.file_ne (not_not.mpr hmatches), fun _ => howns⟩

def outerModule : TotalEntry := ⟨"A-MIB", [[1, 3, 6, 1, 2, 1]], by decide, by decide⟩

def bestModule : TotalEntry := ⟨"B-MIB", [[1, 3, 6, 1], [1, 3, 6, 1, 2, 1, 5, 5]], by decide, by decide⟩

def innerModule : TotalEntry := ⟨"C-MIB", [[1, 3, 6, 1, 2, 1, 5]], by decide, by decide⟩

/-- Automatic loading without prompts; the second module lists the longest root behind a root that
the first one covers. -/
def nestedModules : MibState :=
  refresh
    { files := fun _ => none, total := [outerModule, bestModule, innerModule]
      automaticLoading := 1, answer := fun _ => .yes, mibpreloads := [], wanted := []
      handle := smiInit, loaded := [], unloaded := [], policy := .mibloadDefault, prompts := 0 }

theorem nestedModules_rivalsBeaten : nestedModules.RivalsBeaten [1, 3, 6, 1, 2, 1, 5, 5, 1, 0] := by
  let scores := matchLengths nestedModules.unloaded (Oid.getPrintable [1, 3, 6, 1, 2, 1, 5, 5, 1, 0])
  have houter : scores outerModule = [] ++ 11 :: [] := by decide
  have hbest : scores bestModule = [7] ++ 15 :: [] := by decide
  have hinner : scores innerModule = [13] := by decide
  intro before e after htotal hrival front s back hscores
  have hs : s ∈ scores e := (congrArg (s ∈ ·) hscores).mpr (List.mem_append_right front List.mem_cons_self)
  rcases before with _ | ⟨a, _ | ⟨b, _ | ⟨c, before⟩⟩⟩
  · -- the first module: a longer match is listed later
    cases htotal
    rw [houter, List.nil_append, List.mem_singleton] at hs
    have hlisted : 15 ∈ scores bestModule := by decide
    exact Or.inr (Or.inr ⟨bestModule, List.mem_cons_self, 15, hlisted, by omega⟩)
  · -- the second one owns the longest root
    cases htotal
    have hroot : nestedModules.Matches [1, 3, 6, 1, 2, 1, 5, 5, 1, 0] bestModule [1, 3, 6, 1, 2, 1, 5, 5] :=
      ⟨List.mem_cons_of_mem _ List.mem_cons_self, by decide, by decide, by decide⟩
    have hlongest : nestedModules.total.all fun e => e.roots.all fun root => decide (root.length ≤ 8) := by decide
    refine absurd ⟨bestModule, _, hroot, rfl, ?_⟩ hrival
    rintro e' root' ⟨he', -, hroot', -⟩
    exact of_decide_eq_true (List.all_eq_true.mp (List.all_eq_true.mp hlongest e' he') root' hroot')
  · -- the third one is covered by the second, whose shorter root the first one covers
    cases htotal
    rw [hinner, List.mem_singleton] at hs
    have hfirst : Covered scores 0 ([] ++ outerModule :: []) 7 :=
      .listed houter (by decide) fun r hr => absurd hr List.not_mem_nil
    have hboth : Covered scores 0 ([outerModule] ++ bestModule :: []) s := by
      refine .listed hbest (by omega) fun r hr _ => ?_
      rw [List.mem_singleton.mp hr]
      exact hfirst
    exact Or.inl hboth
  · have hlength := congrArg List.length htotal
    simp only [List.length_append, List.length_cons] at hlength
    change 3 = _ at hlength
    omega

/-- Two modules, one with a root that is only a text prefix of OIDs below 1.3.6.1.2.1.10. -/
def systemAndTransmission : MibState :=
  refresh
    { files := fun _ => none
      total := [⟨"SYSTEM-MIB", [[1, 3, 6, 1, 2, 1, 1]], by decide, by decide⟩,
        ⟨"TRANSMISSION-MIB", [[1, 3, 6, 1, 2, 1, 10]], by decide, by decide⟩]
      automaticLoading := 1, answer := fun _ => .yes, mibpreloads := [], wanted := []
      handle := smiInit, loaded := [], unloaded := [], policy := .mibloadDefault, prompts := 0 }

end MibState

end SnmpB.Mib
