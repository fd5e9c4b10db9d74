import SnmpB.Editor.Rfc
import Mathlib.Data.List.Forall2
import Mathlib.Data.List.TakeWhile

/-! # What an extracted file holds

The lines of a module that a file is made of, told without the counter: those
around a page break that go, and what becomes of the blank ones.
-/
namespace SnmpB.Editor.Rfc

/-! ## The modules of a text -/

/-- The lines behind DEFINITIONS up to the END that closes the module, inside a macro or not. -/
inductive Body : Bool → List Line → Prop
  | closed {line : Line} : draftRegexp line = false → moduleRegexp line = none → macroRegexp line = false →
      endRegexp line = true → Body false [line]
  | draft {inMacro : Bool} {line : Line} {lines : List Line} : draftRegexp line = true → Body inMacro lines →
      Body inMacro (line :: lines)
  | endMacro {inMacro : Bool} {line : Line} {lines : List Line} : draftRegexp line = false →
      moduleRegexp line = none → (inMacro || macroRegexp line) = true → endRegexp line = true →
      Body false lines → Body inMacro (line :: lines)
  | line {inMacro : Bool} {line : Line} {lines : List Line} : draftRegexp line = false →
      moduleRegexp line = none → endRegexp line = false → Body (inMacro || macroRegexp line) lines →
      Body inMacro (line :: lines)

/-- Each module of the text is closed before the next one starts. -/
inductive Modules : List Line → List (Line × List Line) → Prop
  | nil : Modules [] []
  | outside {line : Line} {lines : List Line} {ms : List (Line × List Line)} :
      (draftRegexp line = true ∨ moduleRegexp line = none) → Modules lines ms → Modules (line :: lines) ms
  | module {line name : Line} {body lines : List Line} {ms : List (Line × List Line)} :
      draftRegexp line = false → moduleRegexp line = some name → Body (macroRegexp line) body → Modules lines ms →
      Modules (line :: body ++ lines) ((name, line :: body) :: ms)

/-- The modules a file is written for, from the one with this number on. -/
def written (prepare : ℕ → Prepared) : ℕ → List (Line × List Line) → List (Line × List Line)
  | _, [] => []
  | k, m :: ms =>
    match prepare k with
    | .abort => []
    | .skip => written prepare (k + 1) ms
    | .write => if m.1.isEmpty then written prepare (k + 1) ms else m :: written prepare (k + 1) ms

/-! ## The lines of a module -/

/-- The lines with text but for page footers and the two lines behind one, where Internet-Draft
headers do not count; told whether the last lines were footers. -/
def textLines : Bool → Bool → List Line → List Line
  | _, _, [] => []
  | before, last, line :: lines =>
    if draftRegexp line then textLines before last lines
    else if before || last || pageRegexp line || blankLine line then textLines last (pageRegexp line) lines
    else line :: textLines last (pageRegexp line) lines

/-- Which lines are remembered. A blank line may be lost as long as nothing but blank lines has
followed a page break. -/
inductive Survives : Bool → Bool → Bool → List Line → List Line → Prop
  | nil {broken before last : Bool} : Survives broken before last [] []
  | draft {broken before last : Bool} {line : Line} {lines kept : List Line} : draftRegexp line = true →
      Survives broken before last lines kept → Survives broken before last (line :: lines) kept
  | footer {broken before last : Bool} {line : Line} {lines kept : List Line} : draftRegexp line = false →
      pageRegexp line = true → Survives true last true lines kept →
      Survives broken before last (line :: lines) kept
  | behind {broken before last : Bool} {line : Line} {lines kept : List Line} : draftRegexp line = false →
      pageRegexp line = false → (before || last) = true → Survives broken last false lines kept →
      Survives broken before last (line :: lines) kept
  | line {broken : Bool} {line : Line} {lines kept : List Line} : draftRegexp line = false →
      pageRegexp line = false → blankLine line = false → Survives false false false lines kept →
      Survives broken false false (line :: lines) (line :: kept)
  | blank {broken : Bool} {line : Line} {lines kept : List Line} : draftRegexp line = false →
      pageRegexp line = false → blankLine line = true → Survives broken false false lines kept →
      Survives broken false false (line :: lines) (line :: kept)
  | lost {line : Line} {lines kept : List Line} : draftRegexp line = false → pageRegexp line = false →
      blankLine line = true → Survives true false false lines kept →
      Survives true false false (line :: lines) kept

/-- The same number of spaces goes from each line with text, a run of blank lines becomes one
empty line, and none at the end. -/
inductive Cut (strip : ℕ) : List Line → List Line → Prop
  | tail {run : List Line} : (∀ line ∈ run, blankLine line) → Cut strip run []
  | line {line : Line} {lines file : List Line} : blankLine line = false → strip ≤ leadingSpaces line →
      Cut strip lines file → Cut strip (line :: lines) (line.drop strip :: file)
  | run {run : List Line} {line : Line} {lines file : List Line} : run ≠ [] → (∀ line ∈ run, blankLine line) →
      blankLine line = false → strip ≤ leadingSpaces line → Cut strip lines file →
      Cut strip (run ++ line :: lines) ([] :: line.drop strip :: file)

/-- What a file holds of its module. -/
def Holds (body file : List Line) : Prop :=
  ∃ kept strip, Survives false false false body kept ∧ Cut strip kept file ∧
    file.filter (!blankLine ·) = (textLines false false body).map (List.drop strip)

theorem Survives.textLines_eq {broken before last : Bool} {body kept : List Line}
    (h : Survives broken before last body kept) : kept.filter (!blankLine ·) = textLines before last body := by
  induction h with
  | nil => rfl
  | draft hdraft _ ih =>
    rw [textLines, if_pos hdraft]
    exact ih
  | footer hdraft hpage _ ih => simp [textLines, hdraft, hpage, ih]
  | behind hdraft hpage hbehind _ ih =>
    rw [ih, textLines, if_neg (by simp [hdraft]), if_pos (by simp [hbehind]), hpage]
  | line hdraft hpage hblank _ ih => simp [textLines, hdraft, hpage, hblank, ih]
  | blank hdraft hpage hblank _ ih => simp [textLines, hdraft, hpage, hblank, ih]
  | lost hdraft hpage hblank _ ih => simp [textLines, hdraft, hpage, hblank, ih]

theorem isBlank_of_isSpace {c : Char} (h : isSpace c) : isBlank c := by
  unfold isBlank
  rw [Bool.or_eq_true]
  exact Or.inl h

/-- Leading spaces make no line blank, nor does their loss. -/
theorem blankLine_drop {line : Line} {strip : ℕ} (h : strip ≤ leadingSpaces line) :
    blankLine (line.drop strip) = blankLine line := by
  have hspaces : ∀ c ∈ line.take strip, isBlank c := by
    intro c hc
    apply isBlank_of_isSpace
    have hbegins : line.take strip <+: line.takeWhile isSpace :=
      List.prefix_of_prefix_length_le (List.take_prefix ..) (List.takeWhile_prefix _)
        (le_trans (List.length_take_le ..) h)
    exact List.mem_takeWhile_imp (hbegins.subset hc)
  have hall : (line.take strip).all isBlank = true := List.all_eq_true.mpr hspaces
  conv_rhs => rw [← List.take_append_drop strip line]
  rw [blankLine, blankLine, List.all_append, hall, Bool.true_and]

theorem Cut.filter_eq {strip : ℕ} {kept file : List Line} (h : Cut strip kept file) :
    file.filter (!blankLine ·) = (kept.filter (!blankLine ·)).map (List.drop strip) := by
  have hrun : ∀ {run : List Line}, (∀ line ∈ run, blankLine line) → run.filter (!blankLine ·) = [] := by
    intro run hrun
    rw [List.filter_eq_nil_iff]
    intro line hline
    simp [hrun line hline]
  induction h with
  | tail hblank => rw [hrun hblank]; rfl
  | line hblank hstrip _ ih => simp [blankLine_drop hstrip, hblank, ih]
  | run _ hall hblank hstrip _ ih =>
    have hempty : blankLine [] = true := rfl
    simp [List.filter_append, hrun hall, blankLine_drop hstrip, hblank, hempty, ih]

/-! ## Cutting -/

theorem leadingSpaces_lt {line : Line} (h : blankLine line = false) : leadingSpaces line < line.length := by
  obtain ⟨c, hc, hblank⟩ := List.all_eq_false.mp h
  have hle : leadingSpaces line ≤ line.length := (List.takeWhile_prefix _).length_le
  apply lt_of_le_of_ne hle
  intro heq
  have hall : line.takeWhile isSpace = line := (List.takeWhile_prefix _).eq_of_length heq
  exact hblank (isBlank_of_isSpace (List.takeWhile_eq_self_iff.mp hall c hc))

theorem stripOf_le {lines : List Line} {line : Line} (hline : line ∈ lines) (h : blankLine line = false) :
    stripOf lines ≤ leadingSpaces line := by
  unfold stripOf
  generalize 99 = strip
  have hstep : ∀ (strip : ℕ) (line : Line), (if blankLine line then strip
      else if leadingSpaces line < strip ∧ leadingSpaces line < line.length then leadingSpaces line
      else strip) ≤ strip := by
    intro strip line
    split
    · exact le_refl _
    · split
      · rename_i hless
        exact hless.1.le
      · exact le_refl _
  have hfold : ∀ (lines : List Line) (strip : ℕ), lines.foldl (fun strip line =>
      if blankLine line then strip
      else if leadingSpaces line < strip ∧ leadingSpaces line < line.length then leadingSpaces line
      else strip) strip ≤ strip := by
    intro lines
    induction lines with
    | nil => exact fun _ => le_refl _
    | cons line lines ih => exact fun strip => (ih _).trans (hstep strip line)
  induction lines generalizing strip with
  | nil => cases hline
  | cons first lines ih =>
    rw [List.foldl_cons]
    rcases List.mem_cons.mp hline with rfl | hline
    · refine (hfold lines _).trans ?_
      rw [if_neg (by simp [h])]
      split
      · exact le_refl _
      · rename_i hnot
        have hlt := leadingSpaces_lt h
        omega
    · exact ih hline _

theorem cut_spec {strip : ℕ} {lines : List Line}
    (h : ∀ line ∈ lines, blankLine line = false → strip ≤ leadingSpaces line) :
    Cut strip lines (cut strip 0 lines) ∧ ∀ (run : List Line) (num_bl : ℕ), run ≠ [] → num_bl > 0 →
      (∀ line ∈ run, blankLine line) → Cut strip (run ++ lines) (cut strip num_bl lines) := by
  induction lines with
  | nil =>
    refine ⟨Cut.tail nofun, ?_⟩
    intro run num_bl _ _ hrun
    rw [List.append_nil]
    exact Cut.tail hrun
  | cons line lines ih =>
    obtain ⟨hnone, hsome⟩ := ih fun l hl => h l (List.mem_cons_of_mem line hl)
    cases hblank : blankLine line with
    | true =>
      constructor
      · rw [cut, if_pos hblank]
        exact hsome [line] 1 (List.cons_ne_nil _ _) Nat.one_pos (by simpa using hblank)
      · intro run num_bl hne hpos hrun
        rw [cut, if_pos hblank, List.append_cons]
        apply hsome _ _ (by simp) (Nat.succ_pos _)
        intro l hl
        rcases List.mem_append.mp hl with hl | hl
        · exact hrun l hl
        · rwa [List.mem_singleton.mp hl]
    | false =>
      have hstrip := h line List.mem_cons_self hblank
      constructor
      · rw [cut, if_neg (by simp [hblank])]
        exact Cut.line hblank hstrip hnone
      · intro run num_bl hne hpos hrun
        rw [cut, if_neg (by simp [hblank]), if_pos hpos]
        exact Cut.run hne hrun hblank hstrip hnone

theorem holds_of_survives {body kept : List Line} (h : Survives false false false body kept) :
    Holds body (cut (stripOf kept) 0 kept) := by
  have hcut := (@cut_spec (stripOf kept) kept fun line hline hblank => stripOf_le hline hblank).1
  refine ⟨kept, stripOf kept, h, hcut, ?_⟩
  rw [hcut.filter_eq, h.textLines_eq]

/-! ## The counter -/

namespace State

/-- The counter is told by what came before. Four lines are skipped at least, and a page break is over
when the counter is. -/
structure Counts (broken before last : Bool) (s : State) : Prop where
  least : 4 ≤ s.skip
  page : before = true ∨ last = true → broken = true
  footer : last = true → s.skipped = 1
  behind : last = false → before = true → s.skipped = 2
  later : last = false → before = false → s.skipped = -1 ∨ (broken = true ∧ 3 ≤ s.skipped ∧ s.skipped < s.skip)

/-- The state behind the counter and the temporary file. -/
def filtered (s : State) (line : Line) : State := ((s.startSkipping line).countSkipped line).remember line

/-- What a line of a module does to the counter and to the lines remembered. -/
def Remembers (broken before last : Bool) (s : State) (line : Line) (s' : State) : Prop :=
  ∃ broken' added, s'.Counts broken' last (pageRegexp line) ∧
    (s.currentModule.length > 0 → s'.tmpout = s.tmpout ++ added) ∧
    ∀ lines kept, Survives broken' last (pageRegexp line) lines kept →
      Survives broken before last (line :: lines) (added ++ kept)

variable {broken before last : Bool} {s : State} {line : Line}

theorem remember_others (s : State) (line : Line) : ∃ tmpout, s.remember line = { s with tmpout } ∧
    (s.skipped = -1 → s.currentModule.length > 0 → tmpout = s.tmpout ++ [line]) ∧
    (s.skipped ≠ -1 → tmpout = s.tmpout) := by
  unfold remember
  split
  · rename_i hkept
    exact ⟨_, rfl, fun _ _ => rfl, fun hne => absurd hkept.1 hne⟩
  · rename_i hnot
    exact ⟨s.tmpout, rfl, fun hskipped hname => absurd ⟨hskipped, hname⟩ hnot, fun _ => rfl⟩

theorem startSkipping_others (s : State) (line : Line) :
    ∃ skipped, s.startSkipping line = { s with skipped } := by
  unfold startSkipping
  split
  · exact ⟨0, rfl⟩
  · exact ⟨s.skipped, rfl⟩

theorem countSkipped_others (s : State) (line : Line) :
    ∃ skip skipped, s.countSkipped line = { s with skip, skipped } := by
  unfold countSkipped
  split
  · simp only
    split
    · exact ⟨s.skip, -1, rfl⟩
    · split
      · exact ⟨_, -1, rfl⟩
      · exact ⟨s.skip, s.skipped + 1, rfl⟩
  · exact ⟨s.skip, s.skipped, rfl⟩

theorem filtered_others (s : State) (line : Line) :
    ∃ skip skipped tmpout, s.filtered line = { s with skip, skipped, tmpout } := by
  obtain ⟨skipped, hstart⟩ := startSkipping_others s line
  obtain ⟨skip, skipped', hcount⟩ := countSkipped_others { s with skipped } line
  obtain ⟨tmpout, hremember, -⟩ := remember_others { s with skip, skipped := skipped' } line
  unfold filtered
  rw [hstart, hcount, hremember]
  exact ⟨skip, skipped', tmpout, rfl⟩

/-- A line that is counted and not remembered. -/
theorem remembers_skip {skip skipped : ℤ} {broken' : Bool}
    (hfiltered : (s.startSkipping line).countSkipped line = { s with skip, skipped }) (hskipped : skipped ≠ -1)
    (hcounts : { s with skip, skipped }.Counts broken' last (pageRegexp line))
    (hsurvives : ∀ lines kept, Survives broken' last (pageRegexp line) lines kept →
      Survives broken before last (line :: lines) kept) :
    Remembers broken before last s line (s.filtered line) := by
  obtain ⟨tmpout, hremember, -, hsame⟩ := remember_others { s with skip, skipped } line
  have htmpout : tmpout = s.tmpout := hsame hskipped
  unfold filtered
  rw [hfiltered, hremember, htmpout]
  refine ⟨broken', [], ?_, ?_, hsurvives⟩
  · exact ⟨hcounts.least, hcounts.page, hcounts.footer, hcounts.behind, hcounts.later⟩
  · intro _
    rw [List.append_nil]

/-- A line that ends the counting or is not counted, and is remembered. -/
theorem remembers_keep {skip : ℤ} {broken' : Bool}
    (hfiltered : (s.startSkipping line).countSkipped line = { s with skip, skipped := -1 })
    (hcounts : { s with skip, skipped := -1 }.Counts broken' last (pageRegexp line))
    (hsurvives : ∀ lines kept, Survives broken' last (pageRegexp line) lines kept →
      Survives broken before last (line :: lines) (line :: kept)) :
    Remembers broken before last s line (s.filtered line) := by
  obtain ⟨tmpout, hremember, hkept, -⟩ := remember_others { s with skip, skipped := -1 } line
  unfold filtered
  rw [hfiltered, hremember]
  refine ⟨broken', [line], ?_, fun hname => hkept rfl hname, hsurvives⟩
  exact ⟨hcounts.least, hcounts.page, hcounts.footer, hcounts.behind, hcounts.later⟩

/-- A footer, which is the first line skipped. -/
theorem remembers_footer (hs : s.Counts broken before last) (hdraft : draftRegexp line = false)
    (hpage : pageRegexp line = true) : Remembers broken before last s line (s.filtered line) := by
  have hleast := hs.least
  have hfiltered : (s.startSkipping line).countSkipped line = { s with skip := s.skip, skipped := 1 } := by
    unfold startSkipping countSkipped
    simp [hpage]
    omega
  have hcounts : { s with skip := s.skip, skipped := 1 }.Counts true last (pageRegexp line) := by
    rw [hpage]
    exact ⟨hleast, fun _ => rfl, fun _ => rfl, nofun, nofun⟩
  apply remembers_skip hfiltered (by decide) hcounts
  rw [hpage]
  intro lines kept h
  exact Survives.footer hdraft hpage h

/-- The two lines behind a footer. -/
theorem remembers_behind (hs : s.Counts broken before last) (hdraft : draftRegexp line = false)
    (hpage : pageRegexp line = false) (hbehind : (before || last) = true) :
    Remembers broken before last s line (s.filtered line) := by
  have hleast := hs.least
  have hskipped : s.skipped = if last then 1 else 2 := by
    cases last with
    | true => exact hs.footer rfl
    | false =>
      rw [Bool.or_false] at hbehind
      exact hs.behind rfl hbehind
  have hbroken : broken = true := hs.page (by simpa using hbehind)
  have hfiltered : (s.startSkipping line).countSkipped line =
      { s with skip := s.skip, skipped := if last then 2 else 3 } := by
    unfold startSkipping countSkipped
    simp only [hpage, Bool.false_eq_true, ↓reduceIte, hskipped]
    cases last with
    | true =>
      rw [if_pos (by decide), if_neg (by simp; omega), if_neg (by simp)]
      rfl
    | false =>
      rw [if_pos (by decide), if_neg (by simp; omega), if_neg (by simp)]
      rfl
  have hcounts : { s with skip := s.skip, skipped := if last then 2 else 3 }.Counts broken last
      (pageRegexp line) := by
    rw [hpage, hbroken]
    refine ⟨hleast, fun _ => rfl, nofun, ?_, ?_⟩
    · rintro - rfl
      rfl
    · rintro - rfl
      have hthree : (3 : ℤ) < s.skip := by omega
      exact Or.inr ⟨rfl, Int.le_refl 3, hthree⟩
  apply remembers_skip hfiltered (by cases last <;> decide) hcounts
  rw [hpage]
  intro lines kept h
  exact Survives.behind hdraft hpage hbehind h

/-- A remembered line with text ends the page break, and a blank one does not. -/
theorem survives_kept (hdraft : draftRegexp line = false) (hpage : pageRegexp line = false)
    (lines kept : List Line)
    (h : Survives (broken && blankLine line) false (pageRegexp line) lines kept) :
    Survives broken false false (line :: lines) (line :: kept) := by
  rw [hpage] at h
  cases hblank : blankLine line with
  | true =>
    rw [hblank, Bool.and_true] at h
    exact Survives.blank hdraft hpage hblank h
  | false =>
    rw [hblank, Bool.and_false] at h
    exact Survives.line hdraft hpage hblank h

theorem counts_over {skip : ℤ} (hskip : 4 ≤ skip) (hpage : pageRegexp line = false) :
    { s with skip, skipped := -1 }.Counts broken false (pageRegexp line) := by
  rw [hpage]
  exact ⟨hskip, by simp, nofun, nofun, fun _ _ => Or.inl rfl⟩

/-- A line that is no footer, and not right behind one. -/
theorem remembers_later (hs : s.Counts broken false false) (hdraft : draftRegexp line = false)
    (hpage : pageRegexp line = false) : Remembers broken false false s line (s.filtered line) := by
  have hleast := hs.least
  have hstart : s.startSkipping line = s := by
    unfold startSkipping
    simp [hpage]
  rcases hs.later rfl rfl with hskipped | ⟨hbroken, hthree, hless⟩
  · have hfiltered : (s.startSkipping line).countSkipped line = { s with skip := s.skip, skipped := -1 } := by
      rw [hstart, countSkipped, if_neg (by omega), ← hskipped]
    exact remembers_keep hfiltered (counts_over hleast hpage) (survives_kept hdraft hpage)
  · have hcount : (s.startSkipping line).countSkipped line = if s.skipped + 1 ≥ s.skip then { s with skipped := -1 }
        else if s.skipped + 1 ≥ 4 ∧ !blankLine line then
          { s with skip := if s.skipped + 1 < s.skip then s.skipped + 1 else s.skip, skipped := -1 }
        else { s with skipped := s.skipped + 1 } := by
      rw [hstart, countSkipped, if_pos (by omega)]
    split at hcount
    · exact @remembers_keep _ _ _ _ _ s.skip _ hcount (counts_over hleast hpage) (survives_kept hdraft hpage)
    · rename_i hgoing
      split at hcount
      · refine remembers_keep hcount (counts_over ?_ hpage) (survives_kept hdraft hpage)
        split <;> omega
      · rename_i hblank
        have hblank : blankLine line = true := by
          simp only [not_and, Bool.not_eq_true'] at hblank
          have hfour : s.skipped + 1 ≥ 4 := by omega
          simpa using hblank hfour
        have hcounts : { s with skip := s.skip, skipped := s.skipped + 1 }.Counts true false (pageRegexp line) := by
          rw [hpage]
          exact ⟨hleast, fun _ => rfl, nofun, nofun, fun _ _ => Or.inr ⟨rfl, by simp; omega, by simp; omega⟩⟩
        apply @remembers_skip _ _ _ _ _ s.skip _ _ hcount (by omega) hcounts
        rw [hpage, hbroken]
        intro lines kept h
        exact Survives.lost hdraft hpage hblank h

theorem remembers (hs : s.Counts broken before last) (hdraft : draftRegexp line = false) :
    Remembers broken before last s line (s.filtered line) := by
  cases hpage : pageRegexp line with
  | true => exact remembers_footer hs hdraft hpage
  | false =>
    cases hbehind : before || last with
    | true => exact remembers_behind hs hdraft hpage hbehind
    | false =>
      obtain ⟨rfl, rfl⟩ := Bool.or_eq_false_iff.mp hbehind
      exact remembers_later hs hdraft hpage

end State

/-! ## The lines that begin and end a module -/

theorem many_suffix {c : Char → Bool} {line rest : Line} (h : rest ∈ many c line) : rest <:+ line := by
  induction line with
  | nil =>
    rw [many, List.mem_singleton] at h
    exact h ▸ List.suffix_refl _
  | cons x xs ih =>
    rw [many] at h
    split at h
    · rcases List.mem_append.mp h with h | h
      · exact (ih h).trans (List.suffix_cons x xs)
      · exact List.mem_singleton.mp h ▸ List.suffix_refl _
    · exact List.mem_singleton.mp h ▸ List.suffix_refl _

theorem mem_of_many {c : Char → Bool} {line rest : Line} (h : rest ∈ many c line) {x : Char} (hx : x ∈ line) :
    x ∈ rest ∨ c x := by
  induction line with
  | nil => cases hx
  | cons y ys ih =>
    rw [many] at h
    split at h
    · rename_i hy
      rcases List.mem_append.mp h with h | h
      · rcases List.mem_cons.mp hx with rfl | hx
        · exact Or.inr hy
        · exact ih h hx
      · exact Or.inl (List.mem_singleton.mp h ▸ hx)
    · exact Or.inl (List.mem_singleton.mp h ▸ hx)

theorem text_eq {s line rest : Line} (h : rest ∈ text s line) : line = s ++ rest := by
  unfold text at h
  split at h
  · rename_i hbegins
    obtain ⟨tail, rfl⟩ := hbegins
    rw [List.mem_singleton.mp h, List.drop_left]
  · cases h

theorem optional_suffix {s line rest : Line} (h : rest ∈ optional s line) : rest <:+ line := by
  rcases List.mem_append.mp h with h | h
  · exact text_eq h ▸ List.suffix_append ..
  · exact List.mem_singleton.mp h ▸ List.suffix_refl _

/-- A line that begins a module holds DEFINITIONS, and one that ends it holds no such letters. -/
theorem moduleRegexp_not_end {line name : Line} (h : moduleRegexp line = some name) : endRegexp line = false := by
  have hletter : 'F' ∈ line := by
    have hmem := List.mem_of_head? h
    obtain ⟨start, hstart, hmem⟩ := List.mem_flatMap.mp hmem
    obtain ⟨rest, hrest, hmem⟩ := List.mem_flatMap.mp hmem
    obtain ⟨tail, htail, -⟩ := List.mem_map.mp hmem
    simp only [List.mem_filter, List.mem_flatMap] at htail
    obtain ⟨⟨_, ⟨_, ⟨_, ⟨_, ⟨after, ⟨before, ⟨space, hspace, hbefore⟩, hafter⟩, -⟩, -⟩, -⟩, -⟩, -⟩, -⟩ := htail
    have hsuffix : before <:+ line :=
      (((optional_suffix hbefore).trans (many_suffix hspace)).trans (many_suffix hrest)).trans (many_suffix hstart)
    apply hsuffix.subset
    rw [text_eq hafter]
    exact List.mem_append_left _ (by decide)
  rw [Bool.eq_false_iff]
  intro hend
  obtain ⟨rest, hmem, hempty⟩ := List.any_eq_true.mp hend
  obtain ⟨after, hafter, hrest⟩ := List.mem_flatMap.mp hmem
  obtain ⟨start, hstart, hafter⟩ := List.mem_flatMap.mp hafter
  have hnil : rest = [] := List.isEmpty_iff.mp hempty
  rcases mem_of_many hstart hletter with hletter | hblank
  · rw [text_eq hafter] at hletter
    rcases List.mem_append.mp hletter with hletter | hletter
    · revert hletter
      decide
    · rcases mem_of_many hrest hletter with hletter | hblank
      · rw [hnil] at hletter
        cases hletter
      · revert hblank
        decide
  · revert hblank
    decide

/-! ## A module, and a text -/

namespace State

variable {prepare : ℕ → Prepared} {s : State} {line : Line}

theorem processLine_draft (h : draftRegexp line = true) : s.processLine prepare line = some s := if_pos h

theorem processLine_inside (hdraft : draftRegexp line = false) (hmodule : moduleRegexp line = none) :
    s.processLine prepare line = some (((s.filtered line).noteMacro line).endModule line) := by
  unfold processLine startModule
  rw [if_neg (by simp [hdraft]), hmodule]
  rfl

theorem processLines_cons {s' : State} (h : s.processLine prepare line = some s') (lines : List Line) :
    processLines prepare s (line :: lines) = processLines prepare s' lines := by
  rw [processLines, h]

/-- The module is over, and its file is written from the lines remembered. -/
structure Closed (s : State) (kept : List Line) (s' : State) : Prop where
  outside : s'.currentModule = []
  started : s'.started = s.started
  skipped : s.skipmibfile = true → s'.files = s.files
  filed : s.skipmibfile = false → s.currentModule.length > 0 →
    s'.files = s.files ++ [(s.currentModule, cut (stripOf (s.tmpout ++ kept)) 0 (s.tmpout ++ kept))]

theorem closed_closeModule (s : State) : s.Closed [] s.closeModule := by
  unfold closeModule
  split
  · rename_i hskip
    exact ⟨rfl, rfl, fun _ => rfl, fun hnot => by simp [hskip] at hnot⟩
  · rename_i hskip
    refine ⟨rfl, rfl, fun hnot => absurd hnot hskip, ?_⟩
    intro _ hname
    have hne : s.currentModule.isEmpty = false := by
      rw [List.isEmpty_eq_false_iff]
      exact List.length_pos_iff.mp hname
    simp only [hne, List.append_nil, Bool.false_eq_true, ↓reduceIte]

/-- Only the lines remembered and the flag of the macro differ. -/
theorem Closed.of_added {s₁ s' : State} {added kept : List Line} (h : s₁.Closed kept s')
    (hothers : ∃ skip skipped tmpout inMacro, s₁ = { s with skip, skipped, tmpout, inMacro })
    (htmpout : s.currentModule.length > 0 → s₁.tmpout = s.tmpout ++ added) : s.Closed (added ++ kept) s' := by
  obtain ⟨skip, skipped, tmpout, inMacro, rfl⟩ := hothers
  refine ⟨h.outside, h.started, h.skipped, ?_⟩
  intro hskip hname
  rw [h.filed hskip hname, show tmpout = s.tmpout ++ added from htmpout hname, List.append_assoc]

theorem Remembers.after_line {broken before last : Bool} (h : Remembers broken before last s line (s.filtered line))
    (hend : endRegexp line = false) :
    ∃ broken' added, (((s.filtered line).noteMacro line).endModule line).Counts broken' last (pageRegexp line) ∧
      (((s.filtered line).noteMacro line).endModule line).inMacro = (s.inMacro || macroRegexp line) ∧
      (∀ kept s', (((s.filtered line).noteMacro line).endModule line).Closed kept s' →
        s.Closed (added ++ kept) s') ∧
      ∀ lines kept, Survives broken' last (pageRegexp line) lines kept →
        Survives broken before last (line :: lines) (added ++ kept) := by
  obtain ⟨broken', added, hcounts, htmpout, hsurvives⟩ := h
  obtain ⟨skip, skipped, tmpout, hfiltered⟩ := filtered_others s line
  have hnoted : ((s.filtered line).noteMacro line).endModule line =
      { s.filtered line with inMacro := s.inMacro || macroRegexp line } := by
    unfold endModule noteMacro
    rw [if_neg (by simp [hend])]
    split
    · rename_i hopens
      rw [hopens, Bool.or_true]
    · rename_i hopens
      rw [Bool.eq_false_iff.mpr hopens, Bool.or_false, hfiltered]
  rw [hnoted]
  refine ⟨broken', added, ⟨hcounts.least, hcounts.page, hcounts.footer, hcounts.behind, hcounts.later⟩, rfl, ?_,
    hsurvives⟩
  intro kept s' hclosed
  refine hclosed.of_added ⟨skip, skipped, tmpout, s.inMacro || macroRegexp line, ?_⟩ htmpout
  rw [hfiltered]

/-- The lines behind DEFINITIONS, by induction on them: the counter and the flag of the macro are
carried along. -/
theorem processLines_body {inMacro : Bool} {body : List Line} (h : Body inMacro body) :
    ∀ {broken before last : Bool} {s : State}, s.Counts broken before last → s.inMacro = inMacro →
      ∀ rest, ∃ kept s', Survives broken before last body kept ∧
        processLines prepare s (body ++ rest) = processLines prepare s' rest ∧ s.Closed kept s' := by
  induction h with
  | @closed line hdraft hmodule hopens hend =>
    intro broken before last s hs hflag rest
    obtain ⟨broken', added, -, htmpout, hsurvives⟩ := remembers hs hdraft
    obtain ⟨skip, skipped, tmpout, hfiltered⟩ := filtered_others s line
    have hflag' : ¬ (s.filtered line).inMacro = true := by
      rw [hfiltered]
      simp [hflag]
    have hnoted : (s.filtered line).noteMacro line = s.filtered line := if_neg (by simp [hopens])
    have hclosing : (s.filtered line).endModule line = (s.filtered line).closeModule := by
      rw [endModule, if_pos hend, if_neg hflag']
    refine ⟨added ++ [], (s.filtered line).closeModule, hsurvives [] [] Survives.nil, ?_, ?_⟩
    · rw [List.singleton_append, processLines_cons (processLine_inside hdraft hmodule), hnoted, hclosing]
    · refine (closed_closeModule _).of_added ⟨skip, skipped, tmpout, s.inMacro, ?_⟩ htmpout
      rw [hfiltered]
  | @draft inMacro line lines hdraft _ ih =>
    intro broken before last s hs hflag rest
    obtain ⟨kept, s', hsurvives, hrun, hclosed⟩ := ih hs hflag rest
    refine ⟨kept, s', Survives.draft hdraft hsurvives, ?_, hclosed⟩
    rw [List.cons_append, processLines_cons (processLine_draft hdraft), hrun]
  | @endMacro inMacro line lines hdraft hmodule hopens hend _ ih =>
    intro broken before last s hs hflag rest
    obtain ⟨broken', added, hcounts, htmpout, hsurvives⟩ := remembers hs hdraft
    obtain ⟨skip, skipped, tmpout, hfiltered⟩ := filtered_others s line
    have hin : ((s.filtered line).noteMacro line).inMacro = true := by
      unfold noteMacro
      split
      · rfl
      · rename_i hno
        rw [hfiltered]
        rw [Bool.eq_false_iff.mpr hno, Bool.or_false] at hopens
        exact hflag.trans hopens
    have hended : ((s.filtered line).noteMacro line).endModule line = { s.filtered line with inMacro := false } := by
      unfold endModule
      rw [if_pos hend, if_pos hin]
      unfold noteMacro
      split <;> rfl
    have hcounts : { s.filtered line with inMacro := false }.Counts broken' last (pageRegexp line) :=
      ⟨hcounts.least, hcounts.page, hcounts.footer, hcounts.behind, hcounts.later⟩
    obtain ⟨kept, s', hrest, hrun, hclosed⟩ := ih hcounts rfl rest
    refine ⟨added ++ kept, s', hsurvives lines kept hrest, ?_, ?_⟩
    · rw [List.cons_append, processLines_cons (processLine_inside hdraft hmodule), hended, hrun]
    · refine hclosed.of_added ⟨skip, skipped, tmpout, false, ?_⟩ htmpout
      rw [hfiltered]
  | @line inMacro line lines hdraft hmodule hend _ ih =>
    intro broken before last s hs hflag rest
    obtain ⟨broken', added, hcounts, hnext, hclosing, hsurvives⟩ := (remembers hs hdraft).after_line hend
    obtain ⟨kept, s', hrest, hrun, hclosed⟩ := ih hcounts (hnext.trans (hflag ▸ rfl)) rest
    refine ⟨added ++ kept, s', hsurvives lines kept hrest, ?_, hclosing kept s' hclosed⟩
    rw [List.cons_append, processLines_cons (processLine_inside hdraft hmodule), hrun]

/-- Between two modules nothing is remembered. -/
theorem processLine_outside (hs : s.currentModule = []) (h : draftRegexp line = true ∨ moduleRegexp line = none) :
    ∃ s', s.processLine prepare line = some s' ∧ s'.currentModule = [] ∧ s'.started = s.started ∧
      s'.files = s.files := by
  cases hdraft : draftRegexp line with
  | true => exact ⟨s, processLine_draft hdraft, hs, rfl, rfl⟩
  | false =>
    have hmodule := h.resolve_left (by simp [hdraft])
    refine ⟨_, processLine_inside hdraft hmodule, ?_⟩
    have hnoted : ∃ skip skipped tmpout inMacro, (s.filtered line).noteMacro line =
        { s with skip, skipped, tmpout, inMacro } := by
      obtain ⟨skip, skipped, tmpout, hfiltered⟩ := filtered_others s line
      rw [hfiltered]
      unfold noteMacro
      split
      · exact ⟨skip, skipped, tmpout, true, rfl⟩
      · exact ⟨skip, skipped, tmpout, s.inMacro, rfl⟩
    obtain ⟨skip, skipped, tmpout, inMacro, hnoted⟩ := hnoted
    rw [hnoted]
    unfold endModule
    split
    · split
      · exact ⟨hs, rfl, rfl⟩
      · unfold closeModule
        split
        · exact ⟨rfl, rfl, rfl⟩
        · simp [hs]
    · exact ⟨hs, rfl, rfl⟩

/-- The state behind the DEFINITIONS of a module with this name. -/
def opened (prepare : ℕ → Prepared) (s : State) (name : Line) : State :=
  { s with
    currentModule := name, skip := 9, skipped := -1, inMacro := false, tmpout := [], started := s.started + 1
    skipmibfile := prepare s.started = .skip || name.isEmpty }

theorem counts_opened (s : State) (name : Line) : (s.opened prepare name).Counts false false false :=
  ⟨show (4 : ℤ) ≤ 9 by omega, by simp, nofun, nofun, fun _ _ => Or.inl rfl⟩

theorem processLine_opening {name : Line} (hdraft : draftRegexp line = false) (hmodule : moduleRegexp line = some name)
    (habort : prepare s.started ≠ .abort) :
    s.processLine prepare line =
      some ((((s.opened prepare name).filtered line).noteMacro line).endModule line) := by
  unfold processLine startModule
  rw [if_neg (by simp [hdraft]), hmodule]
  simp only [habort, ↓reduceIte]
  rfl

theorem processLines_abort {name : Line} (hdraft : draftRegexp line = false)
    (hmodule : moduleRegexp line = some name) (habort : prepare s.started = .abort) (lines : List Line) :
    processLines prepare s (line :: lines) = s := by
  have hnone : s.processLine prepare line = none := by
    unfold processLine startModule
    rw [if_neg (by simp [hdraft]), hmodule]
    simp only [habort, ↓reduceIte, Option.map_none]
  rw [processLines, hnone]

theorem processLines_module {name : Line} {body : List Line} (hdraft : draftRegexp line = false)
    (hmodule : moduleRegexp line = some name) (hbody : Body (macroRegexp line) body)
    (habort : prepare s.started ≠ .abort) (rest : List Line) :
    ∃ kept s', Survives false false false (line :: body) kept ∧
      processLines prepare s (line :: body ++ rest) = processLines prepare s' rest ∧
      (s.opened prepare name).Closed kept s' := by
  have hopened := @counts_opened prepare s name
  have hend : endRegexp line = false := moduleRegexp_not_end hmodule
  obtain ⟨broken, added, hcounts, hopens, hclosing, hsurvives⟩ := (remembers hopened hdraft).after_line hend
  have hflag : (((s.opened prepare name).filtered line).noteMacro line |>.endModule line).inMacro =
      macroRegexp line := by
    rw [hopens]
    exact Bool.false_or _
  obtain ⟨kept, s', hbehind, hrun, hclosed⟩ := processLines_body hbody hcounts hflag rest
  refine ⟨added ++ kept, s', hsurvives body kept hbehind, ?_, hclosing kept s' hclosed⟩
  rw [List.cons_append, processLines_cons (processLine_opening hdraft hmodule habort), hrun]

/-- By induction on the modules of the text; between two of them nothing is open. -/
theorem processLines_files {lines : List Line} {ms : List (Line × List Line)} (h : Modules lines ms) :
    ∀ {s : State}, s.currentModule = [] → ∃ files, (processLines prepare s lines).files = s.files ++ files ∧
      List.Forall₂ (fun m f => f.1 = m.1 ∧ Holds m.2 f.2) (written prepare s.started ms) files := by
  induction h with
  | nil =>
    intro s _
    exact ⟨[], (List.append_nil _).symm, List.Forall₂.nil⟩
  | outside hline _ ih =>
    intro s hs
    obtain ⟨s', hstep, houtside, hstarted, hfiles⟩ := @processLine_outside prepare _ _ hs hline
    obtain ⟨files, hrun, hall⟩ := ih houtside
    rw [processLines_cons hstep, ← hfiles, ← hstarted]
    exact ⟨files, hrun, hall⟩
  | @module line name body lines ms hdraft hmodule hbody _ ih =>
    intro s _
    cases hprepare : prepare s.started with
    | abort =>
      rw [List.cons_append, processLines_abort hdraft hmodule hprepare, written, hprepare]
      exact ⟨[], (List.append_nil _).symm, List.Forall₂.nil⟩
    | skip =>
      have hgoing : prepare s.started ≠ .abort := by
        rw [hprepare]
        decide
      obtain ⟨kept, s', -, hrun, hclosed⟩ := processLines_module hdraft hmodule hbody hgoing lines
      obtain ⟨files, hlater, hall⟩ := ih hclosed.outside
      have hskip : (s.opened prepare name).skipmibfile = true := by simp [opened, hprepare]
      rw [hclosed.started] at hall
      rw [hrun, hlater, hclosed.skipped hskip, written, hprepare]
      exact ⟨files, rfl, hall⟩
    | write =>
      have hgoing : prepare s.started ≠ .abort := by
        rw [hprepare]
        decide
      obtain ⟨kept, s', hsurvives, hrun, hclosed⟩ := processLines_module hdraft hmodule hbody hgoing lines
      obtain ⟨files, hlater, hall⟩ := ih hclosed.outside
      rw [hclosed.started] at hall
      rw [hrun, hlater, written, hprepare]
      cases hname : name.isEmpty with
      | true =>
        have hskip : (s.opened prepare name).skipmibfile = true := by simp [opened, hname]
        rw [hclosed.skipped hskip]
        exact ⟨files, rfl, hall⟩
      | false =>
        have hskip : (s.opened prepare name).skipmibfile = false := by simp [opened, hprepare, hname]
        have hlength : (s.opened prepare name).currentModule.length > 0 :=
          List.length_pos_iff.mpr (List.isEmpty_eq_false_iff.mp hname)
        rw [hclosed.filed hskip hlength, List.append_assoc]
        refine ⟨_, rfl, List.Forall₂.cons ⟨rfl, ?_⟩ hall⟩
        exact holds_of_survives hsurvives

end State

/-- Each file written holds the text of its module, but for what goes around a page break. -/
theorem extractMIBfromRFC_holds {prepare : ℕ → Prepared} {lines : List Line} {ms : List (Line × List Line)}
    (h : Modules lines ms) : List.Forall₂ (fun m f => f.1 = m.1 ∧ Holds m.2 f.2) (written prepare 0 ms)
      (extractMIBfromRFC prepare lines).files := by
  obtain ⟨files, hfiles, hall⟩ := @State.processLines_files prepare _ _ h State.init rfl
  have hnone : State.init.files ++ files = files := List.nil_append files
  unfold extractMIBfromRFC
  rw [hfiles, hnone]
  exact hall

/-! ## Page breaks -/

/-- With an Internet-Draft header between the footer of a page and its first lines. -/
def draftText : List Line :=
  ["M DEFINITIONS ::= BEGIN".toList, "Doe  [Page 1]".toList, "Internet-Draft".toList, [], "RFC 1".toList,
    "  a OBJECT-TYPE".toList, "END".toList]

/-- A macro, and behind the footer of a page more blank lines than are skipped. -/
def macroText : List Line :=
  ["  M DEFINITIONS ::= BEGIN".toList, "  T MACRO ::=".toList, "  END".toList, "Doe  [Page 1]".toList, [],
    "RFC 1".toList, [], [], "    a OBJECT-TYPE".toList, "  END".toList]

theorem Modules.single {line name : Line} {body : List Line} (hdraft : draftRegexp line = false)
    (hmodule : moduleRegexp line = some name) (hbody : Body (macroRegexp line) body) :
    Modules (line :: body) [(name, line :: body)] := by
  have hsingle := Modules.module hdraft hmodule hbody Modules.nil
  rwa [List.append_nil] at hsingle

/-- Lines that neither begin nor end a module or a macro, and are no header, go into the body. -/
theorem Body.plain {inMacro : Bool} (n : ℕ) {lines : List Line}
    (hplain : ∀ line ∈ lines.take n, draftRegexp line = false ∧ moduleRegexp line = none ∧
      endRegexp line = false ∧ macroRegexp line = false)
    (hbody : Body inMacro (lines.drop n)) : Body inMacro lines := by
  induction n generalizing lines with
  | zero => exact hbody
  | succ n ih =>
    cases lines with
    | nil => exact hbody
    | cons line lines =>
      obtain ⟨hdraft, hmodule, hend, hstart⟩ := hplain line List.mem_cons_self
      have hrest := ih (fun l hl => hplain l (List.mem_cons_of_mem line hl)) hbody
      refine Body.line hdraft hmodule hend ?_
      rwa [hstart, Bool.or_false]

theorem modules_draftText : Modules draftText [("M".toList, draftText)] := by
  refine Modules.single (by decide) (by decide) ?_
  refine Body.line (by decide) (by decide) (by decide) ?_
  refine Body.draft (by decide) ?_
  refine Body.plain 3 (by decide) ?_
  exact Body.closed (by decide) (by decide) (by decide) (by decide)

theorem modules_macroText : Modules macroText [("M".toList, macroText)] := by
  refine Modules.single (by decide) (by decide) ?_
  refine Body.line (by decide) (by decide) (by decide) ?_
  refine Body.endMacro (by decide) (by decide) (by decide) (by decide) ?_
  refine Body.plain 6 (by decide) ?_
  exact Body.closed (by decide) (by decide) (by decide) (by decide)

theorem files_draftText : (extractMIBfromRFC (fun _ => .write) draftText).files =
    [("M".toList, ["M DEFINITIONS ::= BEGIN".toList, "  a OBJECT-TYPE".toList, "END".toList])] := by
  decide +kernel

theorem files_macroText : (extractMIBfromRFC (fun _ => .write) macroText).files =
    [("M".toList, ["M DEFINITIONS ::= BEGIN".toList, "T MACRO ::=".toList, "END".toList,
      "  a OBJECT-TYPE".toList, "END".toList])] := by
  decide +kernel

theorem extractMIBfromRFC_holds_macroText :
    Modules macroText [("M".toList, macroText)] ∧
      List.Forall₂ (fun m f => f.1 = m.1 ∧ Holds m.2 f.2) [("M".toList, macroText)]
        (extractMIBfromRFC (fun _ => .write) macroText).files :=
  ⟨modules_macroText, @extractMIBfromRFC_holds (fun _ => .write) _ _ modules_macroText⟩

/-- The lines of a module without page footers, the two lines behind one and Internet-Draft headers,
where a header may be one of the two. -/
def unbroken (drafts : Bool) : Bool → Bool → List Line → List Line
  | _, _, [] => []
  | before, last, line :: lines =>
    if draftRegexp line then
      if drafts then unbroken drafts last false lines else unbroken drafts before last lines
    else if before || last || pageRegexp line then unbroken drafts last (pageRegexp line) lines
    else line :: unbroken drafts last (pageRegexp line) lines

theorem cut_run {strip : ℕ} {run : List Line} (h : ∀ line ∈ run, blankLine line) (num_bl : ℕ) (lines : List Line) :
    cut strip num_bl (run ++ lines) = cut strip (num_bl + run.length) lines := by
  induction run generalizing num_bl with
  | nil => rfl
  | cons line run ih =>
    rw [List.cons_append, cut, if_pos (h line List.mem_cons_self), ih fun l hl => h l (List.mem_cons_of_mem line hl)]
    congr 1
    rw [List.length_cons]
    omega

theorem Cut.eq_cut {strip : ℕ} {kept file : List Line} (h : Cut strip kept file) : file = cut strip 0 kept := by
  induction h with
  | tail hrun =>
    have hnone := @cut_run strip _ hrun 0 []
    rw [List.append_nil] at hnone
    rw [hnone]
    rfl
  | line hblank _ _ ih =>
    rw [cut, if_neg (by simp [hblank]), ← ih]
    rfl
  | @run run line lines file hne hrun hblank _ _ ih =>
    have hpos : 0 + run.length > 0 := by
      rw [Nat.zero_add]
      exact List.length_pos_iff.mpr hne
    rw [cut_run hrun, cut, if_neg (by simp [hblank]), if_pos hpos, ← ih]
    rfl

/-- An Internet-Draft header is not one of the two lines behind a footer, and a run of blank lines
behind one can be lost as a whole. -/
theorem page_break_loses :
    (¬ ∀ prepare lines ms, Modules lines ms → List.Forall₂ (fun m f => ∃ strip, f.2.filter (!blankLine ·) =
      ((unbroken true false false m.2).filter (!blankLine ·)).map (List.drop strip))
        (written prepare 0 ms) (extractMIBfromRFC prepare lines).files) ∧
    ¬ ∀ prepare lines ms, Modules lines ms → List.Forall₂ (fun m f => ∃ strip,
      Cut strip (unbroken false false false m.2) f.2)
        (written prepare 0 ms) (extractMIBfromRFC prepare lines).files := by
  constructor
  · intro h
    have hfiles := h (fun _ => .write) draftText _ modules_draftText
    have hwritten : written (fun _ => .write) 0 [("M".toList, draftText)] = [("M".toList, draftText)] := rfl
    rw [files_draftText, hwritten] at hfiles
    obtain ⟨⟨strip, hfile⟩, -⟩ := List.forall₂_cons.mp hfiles
    have hlength := congrArg List.length hfile
    rw [List.length_map] at hlength
    revert hlength
    decide
  · intro h
    have hfiles := h (fun _ => .write) macroText _ modules_macroText
    have hwritten : written (fun _ => .write) 0 [("M".toList, macroText)] = [("M".toList, macroText)] := rfl
    rw [files_macroText, hwritten] at hfiles
    obtain ⟨⟨strip, hfile⟩, -⟩ := List.forall₂_cons.mp hfiles
    have hlength := congrArg List.length hfile.eq_cut
    have hpromised : (cut strip 0 (unbroken false false false macroText)).length = 6 := rfl
    rw [hpromised] at hlength
    revert hlength
    decide

end SnmpB.Editor.Rfc
