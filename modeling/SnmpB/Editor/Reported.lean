import SnmpB.Editor.Extract
import SnmpB.Library.Runs

/-! # The modules that are reported

At an END the name of the module goes into the list and its lines into a file.
Nothing asks there whether a module has begun: the name is empty then, and only
a macro or a skipped file keeps it out of the list.
-/
namespace SnmpB.Editor.Rfc

namespace State

structure EndOutside (s : State) (line : Line) : Prop where
  draft : draftRegexp line = false
  module : moduleRegexp line = none
  stop : endRegexp line = true
  outside : s.currentModule = []

/-- Behind a macro, or behind a module whose file was skipped, an END does nothing. -/
def Passes (s : State) (line : Line) : Bool := s.inMacro || macroRegexp line || s.skipmibfile

/-- The list has the names of the files that were written and closed, and no other. -/
structure Reported (s : State) : Prop where
  files : s.modules = s.files.map Prod.fst
  named : [] ∉ s.modules

variable {prepare : ℕ → Prepared} {s s' : State} {line : Line}

inductive Lists (s : State) (line : Line) (s' : State) : Prop
  | same : s'.modules = s.modules → s'.files = s.files → (s.EndOutside line → s.Passes line) → Lists s line s'
  | closed (name : Line) (file : List Line) : name ≠ [] → s'.modules = s.modules ++ [name] →
      s'.files = s.files ++ [(name, file)] → ¬ s.EndOutside line → Lists s line s'
  | unnamed : s.EndOutside line → s.Passes line = false → s'.modules = s.modules ++ [[]] →
      s'.files = s.files → Lists s line s'

theorem endModule_not_end (h : endRegexp line = false) (s : State) : s.endModule line = s := if_neg (by simp [h])

theorem noted_others (s : State) (line : Line) :
    ((s.filtered line).noteMacro line).inMacro = (s.inMacro || macroRegexp line) ∧
      ((s.filtered line).noteMacro line).skipmibfile = s.skipmibfile ∧
      ((s.filtered line).noteMacro line).currentModule = s.currentModule ∧
      ((s.filtered line).noteMacro line).modules = s.modules ∧
      ((s.filtered line).noteMacro line).files = s.files := by
  obtain ⟨skip, skipped, tmpout, hfiltered⟩ := filtered_others s line
  rw [hfiltered]
  unfold noteMacro
  split
  · rename_i hdefines
    simp [hdefines]
  · rename_i hno
    simp [Bool.eq_false_iff.mpr hno]

theorem lists_endModule (hdraft : draftRegexp line = false) (hmodule : moduleRegexp line = none) :
    Lists s line (((s.filtered line).noteMacro line).endModule line) := by
  obtain ⟨hdefines, hskip, hname, hmodules, hfiles⟩ := noted_others s line
  generalize (s.filtered line).noteMacro line = t at *
  unfold endModule
  split
  · rename_i hstop
    split
    · rename_i hin
      rw [hdefines] at hin
      refine .same hmodules hfiles fun _ => ?_
      rw [Passes, hin, Bool.true_or]
    · rename_i hout
      rw [hdefines, Bool.not_eq_true] at hout
      unfold closeModule
      split
      · rename_i hskipped
        rw [hskip] at hskipped
        refine .same hmodules hfiles fun _ => ?_
        rw [Passes, hskipped, Bool.or_true]
      · rename_i hkept
        rw [hskip, Bool.not_eq_true] at hkept
        cases hopen : s.currentModule with
        | nil =>
          refine .unnamed ⟨hdraft, hmodule, hstop, hopen⟩ ?_ ?_ ?_
          · rw [Passes, hout, hkept, Bool.or_false]
          · simp [hname, hopen, hmodules]
          · simp [hname, hopen, hfiles]
        | cons a name =>
          refine .closed (a :: name) (cut (stripOf t.tmpout) 0 t.tmpout) (List.cons_ne_nil a name) ?_ ?_ ?_
          · simp [hname, hopen, hmodules]
          · simp [hname, hopen, hfiles]
          · intro hend
            exact List.cons_ne_nil a name (hopen.symm.trans hend.outside)
  · rename_i hstop
    exact .same hmodules hfiles fun hend => absurd hend.stop hstop

theorem processLine_lists (h : s.processLine prepare line = some s') : Lists s line s' := by
  cases hdraft : draftRegexp line with
  | true =>
    rw [processLine_draft hdraft] at h
    cases h
    exact .same rfl rfl fun hend => absurd hend.draft (by simp [hdraft])
  | false =>
    cases hmodule : moduleRegexp line with
    | none =>
      rw [processLine_inside hdraft hmodule] at h
      cases h
      exact lists_endModule hdraft hmodule
    | some name =>
      have hgoing : prepare s.started ≠ .abort := by
        intro habort
        unfold processLine startModule at h
        rw [if_neg (by simp [hdraft]), hmodule] at h
        simp [habort] at h
      rw [processLine_opening hdraft hmodule hgoing] at h
      cases h
      obtain ⟨-, -, -, hmodules, hfiles⟩ := noted_others (s.opened prepare name) line
      rw [endModule_not_end (moduleRegexp_not_end hmodule)]
      refine .same hmodules hfiles fun hend => ?_
      have hnone := hmodule.symm.trans hend.module
      cases hnone

/-! ## A run -/

/-- A name too many is never made up for. -/
theorem processLines_behind {lines : List Line} (h : s.files.length < s.modules.length) :
    (processLines prepare s lines).files.length < (processLines prepare s lines).modules.length := by
  induction lines generalizing s with
  | nil => exact h
  | cons line lines ih =>
    unfold processLines
    split
    · exact h
    · rename_i s' hstep
      apply ih
      cases processLine_lists hstep with
      | same hmodules hfiles _ => rwa [hmodules, hfiles]
      | closed name file _ hmodules hfiles _ => simpa [hmodules, hfiles] using h
      | unnamed _ _ hmodules hfiles =>
        rw [hmodules, hfiles, List.length_append]
        omega

/-- By induction on the lines; the list and the files have grown together so far. -/
theorem processLines_reported_iff {lines : List Line} (h : s.Reported) :
    (processLines prepare s lines).Reported ↔
      Runs.Each (processLine prepare) (fun s line => s.EndOutside line → s.Passes line) s lines := by
  induction lines generalizing s with
  | nil => exact iff_of_true h trivial
  | cons line lines ih =>
    cases hstep : s.processLine prepare line with
    | none =>
      rw [processLines, hstep]
      refine iff_of_true h ⟨?_, fun s' hs' => ?_⟩
      · intro hend
        cases hstep.symm.trans (processLine_inside hend.draft hend.module)
      · cases hstep.symm.trans hs'
    | some s' =>
      rw [processLines, hstep, Runs.each_cons hstep]
      cases processLine_lists hstep with
      | same hmodules hfiles hpasses =>
        have hreported : s'.Reported := ⟨by rw [hmodules, hfiles, h.files], by rw [hmodules]; exact h.named⟩
        rw [ih hreported, and_iff_right hpasses]
      | closed name file hname hmodules hfiles hend =>
        have hreported : s'.Reported := by
          constructor
          · rw [hmodules, hfiles, h.files, List.map_append]
            rfl
          · rw [hmodules, List.mem_append, List.mem_singleton]
            rintro (hold | hnew)
            · exact h.named hold
            · exact hname hnew.symm
        rw [ih hreported, and_iff_right fun hopen => absurd hopen hend]
      | unnamed hend hpasses hmodules hfiles =>
        refine iff_of_false (fun hreported => ?_) fun hcond => ?_
        · have hbehind : s'.files.length < s'.modules.length := by
            rw [hmodules, hfiles, h.files, List.length_append, List.length_map]
            exact Nat.lt_succ_self _
          have hlater : (processLines prepare s' lines).files.length < (processLines prepare s' lines).modules.length :=
            processLines_behind hbehind
          rw [hreported.files, List.length_map] at hlater
          exact Nat.lt_irrefl _ hlater
        · exact absurd (hcond.1 hend) (by simp [hpasses])

theorem end_leaves_iff (prepare : ℕ → Prepared) (s : State) (line : Line) :
    (s.EndOutside line → ∀ s', s.processLine prepare line = some s' →
        s'.modules = s.modules ∧ s'.files = s.files) ↔ (s.EndOutside line → s.Passes line) := by
  refine forall_congr' fun hend => ?_
  have hstep : s.processLine prepare line = some (((s.filtered line).noteMacro line).endModule line) :=
    processLine_inside hend.draft hend.module
  cases processLine_lists hstep with
  | same hmodules hfiles hpasses =>
    refine iff_of_true (fun s' hs' => ?_) (hpasses hend)
    obtain rfl := Option.some.inj (hstep.symm.trans hs')
    exact ⟨hmodules, hfiles⟩
  | closed _ _ _ _ _ hinside => exact absurd hend hinside
  | unnamed _ hpasses hmodules _ =>
    refine iff_of_false (fun hall => ?_) (by simp [hpasses])
    have hsame := hmodules.symm.trans (hall _ hstep).1
    simp at hsame

end State

/-- Main result: the list has the names of the files written and no other, and no END outside a module
changes it or a file, exactly if every such END comes behind a macro or a skipped file. -/
theorem extractMIBfromRFC_reported_iff (prepare : ℕ → Prepared) (lines : List Line) :
    ((extractMIBfromRFC prepare lines).Reported ∧
        Runs.Each (State.processLine prepare) (fun s line => s.EndOutside line → ∀ s',
          s.processLine prepare line = some s' → s'.modules = s.modules ∧ s'.files = s.files)
          State.init lines) ↔
      Runs.Each (State.processLine prepare) (fun s line => s.EndOutside line → s.Passes line)
        State.init lines := by
  have hstart : State.init.Reported := ⟨rfl, List.not_mem_nil⟩
  rw [extractMIBfromRFC, State.processLines_reported_iff hstart]
  refine and_iff_left_of_imp fun hpasses => ?_
  refine (Runs.each_congr (I := fun _ => True) (fun _ _ _ _ _ => trivial) ?_ trivial lines).mpr hpasses
  intro s line _
  exact s.end_leaves_iff prepare line

theorem end_reports_no_module :
    ¬ ∀ prepare lines, (extractMIBfromRFC prepare lines).Reported ∧
      Runs.Each (State.processLine prepare) (fun s line => s.EndOutside line → ∀ s',
        s.processLine prepare line = some s' → s'.modules = s.modules ∧ s'.files = s.files)
        State.init lines := by
  intro h
  have hmodules : (extractMIBfromRFC (fun _ => .write) ["END".toList]).modules = [[]] := by decide +kernel
  have hnamed := (h (fun _ => .write) ["END".toList]).1.named
  rw [hmodules] at hnamed
  exact hnamed (List.mem_singleton.mpr rfl)

end SnmpB.Editor.Rfc
