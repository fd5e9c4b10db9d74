import SnmpB.Library.Lens
import SnmpB.Library.Runs
import Mathlib.Data.Int.Notation
import Mathlib.Data.List.TakeWhile

/-! # The graphs and their file

`GraphManager` writes all graphs with their plots to its file after most of what
it does, but not when it deletes something. A graph that is selected may write
them too, since its poll interval passes through a spin box.
-/
namespace SnmpB.Graphs

structure Plot where
  name : String
  agentname : String
  proto : ℤ
  color : ℤ
  width : ℤ
  shape : ℤ
  oid : String
  deriving DecidableEq

structure Graph where
  name : String
  pollInterval : ℤ
  plots : List Plot
  deriving DecidableEq

/-- The accepted dialog of a plot; its protocol buttons may all be off. -/
structure PlotForm where
  agentname : String
  proto : Option ℤ
  color : ℤ
  width : ℤ
  shape : ℤ
  oid : String

def PlotForm.plotname (form : PlotForm) : String := form.agentname ++ ": " ++ form.oid

/-- What `AddPlot` and `EditPlot` write into a plot. -/
def PlotForm.fill (form : PlotForm) (plot : Plot) : Plot where
  name := form.plotname
  agentname := form.agentname
  proto := form.proto.getD plot.proto
  color := form.color
  width := form.width
  shape := form.shape
  oid := form.oid

/-- `ReadPlotConfig` ends at the first plot without a name. -/
def readPlotConfig (plots : List Plot) : List Plot := plots.takeWhile (·.name ≠ "")

/-- `ReadConfigFile`. -/
def readConfigFile (config : List Graph) : List Graph :=
  config.map fun g => { g with plots := readPlotConfig g.plots }

/-- The range of the spin box. -/
def bound (v : ℤ) : ℤ := max 1 (min v 1000)

/-- The manager with the value of `GraphPollInterval` and the contents of its file. -/
structure GraphManager where
  graphs : List Graph
  currentgraph : Option ℕ
  spin : ℤ
  config : List Graph

namespace GraphManager

/-- `WriteConfigFile`, which removes what was there. -/
def writeConfigFile (m : GraphManager) : GraphManager := { m with config := m.graphs }

/-- `if (currentgraph)`, and what is done with it. -/
def modifyCurrent (m : GraphManager) (g : Graph → Graph) : GraphManager :=
  match m.currentgraph with
  | none => m
  | some k => { m with graphs := m.graphs.modify k g }.writeConfigFile

/-- `SetGraphName`; the item is renamed, and `GraphNameChange` sets the same name again. -/
def setGraphName (m : GraphManager) (text : String) : GraphManager :=
  m.modifyCurrent fun g => { g with name := text }

/-- `valueChanged` of the spin box: `SetPollInterval`. -/
def setPollInterval (m : GraphManager) (v : ℤ) : GraphManager :=
  { m with spin := v }.modifyCurrent fun g => { g with pollInterval := v }

def setValue (m : GraphManager) (v : ℤ) : GraphManager :=
  if m.spin = bound v then m else m.setPollInterval (bound v)

/-- `SelectedGraph` and `SelectGraph`: the current item of the list has changed. -/
def selectedGraph (m : GraphManager) (i : ℕ) : GraphManager :=
  match m.graphs[i]? with
  | none => m
  | some g => { m with currentgraph := some i }.setValue g.pollInterval

/-- `Add`: the poll interval of a new graph is not set, and holds what was in its memory. -/
def add (m : GraphManager) (garbage : ℤ) : GraphManager :=
  let m' := { m with graphs := m.graphs ++ [Graph.mk "newgraph" garbage []] }
  (m'.selectedGraph m.graphs.length).writeConfigFile

/-- `delete graphs.takeAt(i)`. -/
def takeAt (m : GraphManager) (k : ℕ) : GraphManager := { m with graphs := m.graphs.eraseIdx k }

/-- The item of a graph is deleted, and the list turns to another row. -/
def currentItemChanged (m : GraphManager) (next : Option ℕ) : GraphManager := next.elim m m.selectedGraph

/-- "Re-adjust the currentgraph pointer with the new current widget item". -/
def readjust (m : GraphManager) (next : Option ℕ) : GraphManager :=
  { m with currentgraph := next.filter (· < m.graphs.length) }

/-- `Delete`, with the row that the list turns to. -/
def delete (m : GraphManager) (next : Option ℕ) : GraphManager :=
  match m.currentgraph with
  | none => m
  | some k => ((m.takeAt k).currentItemChanged next).readjust next

/-- `AddPlot`, with what the dialog returns; the protocol of a new plot is not set either. -/
def addPlot (m : GraphManager) (garbage : ℤ) : Option PlotForm → GraphManager
  | none => m
  | some form =>
    m.modifyCurrent fun g =>
      { g with plots := g.plots ++ [form.fill ⟨form.plotname, "", garbage, 0, 0, 0, ""⟩] }

/-- `EditPlot` of the item in a row. -/
def editPlot (m : GraphManager) (row : ℕ) : Option PlotForm → GraphManager
  | none => m
  | some form => m.modifyCurrent fun g => { g with plots := g.plots.modify row form.fill }

/-- `DeletePlot` of the current item of the list of plots. -/
def deletePlot (m : GraphManager) (row : Option ℕ) : GraphManager :=
  match m.currentgraph, row with
  | some k, some i => { m with graphs := m.graphs.modify k fun g => { g with plots := g.plots.eraseIdx i } }
  | _, _ => m

inductive Event
  | setGraphName (text : String)
  | setPollInterval (v : ℤ)
  | add (garbage : ℤ)
  | delete (next : Option ℕ)
  | select (i : ℕ)
  | addPlot (garbage : ℤ) (form : Option PlotForm)
  | editPlot (row : ℕ) (form : Option PlotForm)
  | deletePlot (row : Option ℕ)

/-- The row of an edited plot is one of the rows shown. -/
def step (m : GraphManager) : Event → Option GraphManager
  | .setGraphName text => some (m.setGraphName text)
  | .setPollInterval v => if v = bound v ∧ m.spin ≠ v then some (m.setPollInterval v) else none
  | .add garbage => some (m.add garbage)
  | .delete next => some (m.delete next)
  | .select i => some (m.selectedGraph i)
  | .addPlot garbage form => some (m.addPlot garbage form)
  | .editPlot row form =>
    if m.currentgraph.all fun k => m.graphs[k]?.any fun g => row < g.plots.length then some (m.editPlot row form)
    else none
  | .deletePlot row => some (m.deletePlot row)

/-- The constructor: the file is read, and its first graph is selected. -/
def start (config : List Graph) : GraphManager :=
  { graphs := readConfigFile config, currentgraph := none, spin := 3, config := config : GraphManager }.selectedGraph 0

/-! ## Agreement with the file -/

/-- What the next start would load is what is in memory. -/
def Saved (m : GraphManager) : Prop := readConfigFile m.config = m.graphs

/-- The selected graph is there, and every plot has a name. -/
structure Sound (m : GraphManager) : Prop where
  current : ∀ k, m.currentgraph = some k → k < m.graphs.length
  named : ∀ g ∈ m.graphs, ∀ p ∈ g.plots, p.name ≠ ""

/-- The event deletes nothing, or the graph selected instead has an interval to be written. -/
def Keeps (m : GraphManager) : Event → Prop
  | .delete next => ∀ k, m.currentgraph = some k →
      ∃ j g, next = some j ∧ (m.graphs.eraseIdx k)[j]? = some g ∧ m.spin ≠ bound g.pollInterval
  | .deletePlot row => ∀ k g i, m.currentgraph = some k → m.graphs[k]? = some g → row = some i →
      g.plots.length ≤ i
  | _ => True

end GraphManager

theorem readPlotConfig_named {plots : List Plot} (h : ∀ p ∈ plots, p.name ≠ "") : readPlotConfig plots = plots := by
  apply List.takeWhile_eq_self_iff.mpr
  intro p hp
  exact decide_eq_true (h p hp)

/-- What is written is read back, when the plots have names. -/
theorem readConfigFile_named {graphs : List Graph} (h : ∀ g ∈ graphs, ∀ p ∈ g.plots, p.name ≠ "") :
    readConfigFile graphs = graphs := by
  have hsame : ∀ g ∈ graphs, { g with plots := readPlotConfig g.plots } = g := by
    intro g hg
    rw [readPlotConfig_named (h g hg)]
  calc readConfigFile graphs = graphs.map id := List.map_congr_left hsame
    _ = graphs := List.map_id graphs

theorem named_readConfigFile (config : List Graph) :
    ∀ g ∈ readConfigFile config, ∀ p ∈ g.plots, p.name ≠ "" := by
  intro g hg p hp
  obtain ⟨g', -, rfl⟩ := List.mem_map.mp hg
  have hkept := List.mem_takeWhile_imp (p := fun p : Plot => decide (p.name ≠ "")) hp
  exact of_decide_eq_true hkept

theorem plotname_ne (form : PlotForm) : form.plotname ≠ "" := by
  intro h
  have hlength := congrArg String.length h
  unfold PlotForm.plotname at hlength
  rw [String.length_append, String.length_append] at hlength
  have hcolon : (": " : String).length = 2 := rfl
  have hempty : ("" : String).length = 0 := rfl
  omega

namespace GraphManager

variable {m m' : GraphManager}

theorem Sound.saved_write (hm : m.Sound) : m.writeConfigFile.Saved := readConfigFile_named hm.named

theorem Sound.writeConfigFile (hm : m.Sound) : m.writeConfigFile.Sound := ⟨hm.current, hm.named⟩

/-- Graphs are changed in a sound way when the plots keep their names. -/
theorem Sound.modify (hm : m.Sound) (k : ℕ) {f : Graph → Graph}
    (hf : ∀ g, (∀ p ∈ g.plots, p.name ≠ "") → ∀ p ∈ (f g).plots, p.name ≠ "") :
    { m with graphs := m.graphs.modify k f }.Sound where
  current j hj := by
    rw [List.length_modify]
    exact hm.current j hj
  named g hg := by
    rcases Live.mem_modify hg with hg | ⟨g', hg', rfl⟩
    · exact hm.named g hg
    · exact hf g' (hm.named g' hg')

theorem Sound.modifyCurrent (hm : m.Sound) {f : Graph → Graph}
    (hf : ∀ g, (∀ p ∈ g.plots, p.name ≠ "") → ∀ p ∈ (f g).plots, p.name ≠ "") : (m.modifyCurrent f).Sound := by
  unfold GraphManager.modifyCurrent
  split
  · exact hm
  · exact (hm.modify _ hf).writeConfigFile

theorem saved_modifyCurrent (hm : m.Sound) (hsaved : m.Saved) {f : Graph → Graph}
    (hf : ∀ g, (∀ p ∈ g.plots, p.name ≠ "") → ∀ p ∈ (f g).plots, p.name ≠ "") : (m.modifyCurrent f).Saved := by
  unfold GraphManager.modifyCurrent
  split
  · exact hsaved
  · exact (hm.modify _ hf).saved_write

/-- A selected graph shows its interval, or has it written. -/
theorem selectedGraph_cases (hm : { m with currentgraph := none }.Sound) (i : ℕ) :
    (m.graphs[i]? = none ∧ m.selectedGraph i = m) ∨
    ∃ g, m.graphs[i]? = some g ∧ (m.selectedGraph i).Sound ∧
      ((m.spin = bound g.pollInterval ∧ m.selectedGraph i = { m with currentgraph := some i }) ∨
        (m.spin ≠ bound g.pollInterval ∧ (m.selectedGraph i).Saved ∧
          (m.selectedGraph i).graphs.length = m.graphs.length)) := by
  unfold selectedGraph
  cases hi : m.graphs[i]? with
  | none => exact Or.inl ⟨rfl, rfl⟩
  | some g =>
    obtain ⟨hlt, -⟩ := List.getElem?_eq_some_iff.mp hi
    have hselected : { m with currentgraph := some i }.Sound := by
      refine ⟨?_, hm.named⟩
      intro k hk
      cases hk
      exact hlt
    refine Or.inr ⟨g, rfl, ?_⟩
    unfold setValue
    simp only
    split
    · rename_i hspin
      exact ⟨hselected, Or.inl ⟨hspin, rfl⟩⟩
    · rename_i hspin
      have hset : { m with currentgraph := some i, spin := bound g.pollInterval }.Sound :=
        ⟨hselected.current, hselected.named⟩
      have hmodified := hset.modify i (f := fun g' => { g' with pollInterval := bound g.pollInterval })
        fun _ hnamed => hnamed
      exact ⟨hmodified.writeConfigFile, Or.inr ⟨hspin, hmodified.saved_write, List.length_modify ..⟩⟩

theorem Sound.selectedGraph (hm : m.Sound) (i : ℕ) : (m.selectedGraph i).Sound := by
  rcases selectedGraph_cases ⟨fun _ hk => (nomatch hk), hm.named⟩ i with ⟨-, hsame⟩ | ⟨g, -, hsound, -⟩
  · rw [hsame]
    exact hm
  · exact hsound

/-- A selection keeps the agreement. -/
theorem saved_selectedGraph (hm : m.Sound) (hsaved : m.Saved) (i : ℕ) : (m.selectedGraph i).Saved := by
  rcases selectedGraph_cases ⟨fun _ hk => (nomatch hk), hm.named⟩ i with
    ⟨-, hsame⟩ | ⟨g, -, -, ⟨-, hselected⟩ | ⟨-, hwritten, -⟩⟩
  · rw [hsame]
    exact hsaved
  · rw [hselected]
    exact hsaved
  · exact hwritten

theorem sound_grown (hm : m.Sound) (garbage : ℤ) :
    { m with graphs := m.graphs ++ [Graph.mk "newgraph" garbage []] }.Sound where
  current k hk := by
    rw [List.length_append]
    exact Nat.lt_add_right _ (hm.current k hk)
  named g hg := by
    rcases List.mem_append.mp hg with hg | hg
    · exact hm.named g hg
    · rw [List.mem_singleton.mp hg]
      exact fun _ hp => (nomatch hp)

theorem Sound.add (hm : m.Sound) (garbage : ℤ) : (m.add garbage).Sound ∧ (m.add garbage).Saved := by
  have hselected := (sound_grown hm garbage).selectedGraph m.graphs.length
  exact ⟨hselected.writeConfigFile, hselected.saved_write⟩

theorem fill_named (form : PlotForm) {g : Graph} (garbage : ℤ) (h : ∀ p ∈ g.plots, p.name ≠ "") :
    ∀ p ∈ g.plots ++ [form.fill ⟨form.plotname, "", garbage, 0, 0, 0, ""⟩], p.name ≠ "" := by
  intro p hp
  rcases List.mem_append.mp hp with hp | hp
  · exact h p hp
  · rw [List.mem_singleton.mp hp]
    exact plotname_ne form

theorem edit_named (form : PlotForm) {g : Graph} (row : ℕ) (h : ∀ p ∈ g.plots, p.name ≠ "") :
    ∀ p ∈ g.plots.modify row form.fill, p.name ≠ "" := by
  intro p hp
  rcases Live.mem_modify hp with hp | ⟨q, -, rfl⟩
  · exact h p hp
  · exact plotname_ne form

theorem sound_taken (hm : m.Sound) (k : ℕ) : { m.takeAt k with currentgraph := none }.Sound where
  current _ hk := nomatch hk
  named g hg := hm.named g (List.mem_of_mem_eraseIdx hg)

theorem Sound.readjust (hnamed : ∀ g ∈ m.graphs, ∀ p ∈ g.plots, p.name ≠ "") (next : Option ℕ) :
    (m.readjust next).Sound where
  current k hk := by
    obtain ⟨-, hlt⟩ := Option.filter_eq_some_iff.mp hk
    exact of_decide_eq_true hlt
  named := hnamed

/-- What deleting leaves: one graph less, and the agreement only if the next one has been written. -/
theorem delete_cases (hm : m.Sound) (next : Option ℕ) :
    (m.currentgraph = none ∧ m.delete next = m) ∨
    ∃ k, m.currentgraph = some k ∧ (m.delete next).Sound ∧
      ((m.Keeps (.delete next) ∧ (m.delete next).Saved) ∨
        (¬ m.Keeps (.delete next) ∧ (m.delete next).config = m.config ∧
          (m.delete next).graphs = m.graphs.eraseIdx k)) := by
  cases hk : m.currentgraph with
  | none =>
    refine Or.inl ⟨rfl, ?_⟩
    unfold delete
    rw [hk]
  | some k =>
    refine Or.inr ⟨k, rfl, ?_⟩
    have hdelete : m.delete next = ((m.takeAt k).currentItemChanged next).readjust next := by
      unfold delete
      rw [hk]
    have hkeeps : m.Keeps (.delete next) ↔
        ∃ j g, next = some j ∧ (m.graphs.eraseIdx k)[j]? = some g ∧ m.spin ≠ bound g.pollInterval := by
      constructor
      · intro hall
        exact hall k hk
      · rintro hex k' hk'
        cases hk.symm.trans hk'
        exact hex
    have htaken := sound_taken hm k
    rw [hdelete, hkeeps]
    cases next with
    | none =>
      refine ⟨Sound.readjust htaken.named _, Or.inr ⟨?_, rfl, rfl⟩⟩
      rintro ⟨j, g, hnext, -⟩
      cases hnext
    | some j =>
      rcases selectedGraph_cases htaken j with
        ⟨hnone, hsame⟩ | ⟨g, hg, hsound, ⟨hspin, hselected⟩ | ⟨hspin, hwritten, -⟩⟩
      · unfold currentItemChanged
        rw [Option.elim_some, hsame]
        refine ⟨Sound.readjust htaken.named _, Or.inr ⟨?_, rfl, rfl⟩⟩
        rintro ⟨j', g, hnext, hg, -⟩
        cases hnext
        cases hnone.symm.trans hg
      · unfold currentItemChanged
        rw [Option.elim_some, hselected]
        refine ⟨Sound.readjust htaken.named _, Or.inr ⟨?_, rfl, rfl⟩⟩
        rintro ⟨j', g', hnext, hg', hne⟩
        cases hnext
        cases hg.symm.trans hg'
        exact hne hspin
      · exact ⟨Sound.readjust hsound.named _, Or.inl ⟨⟨j, g, rfl, hg, hspin⟩, hwritten⟩⟩

theorem length_eraseIdx_ne {α : Type} {l : List α} {i : ℕ} (h : i < l.length) : l.eraseIdx i ≠ l := by
  intro heq
  have hlength := congrArg List.length heq
  rw [List.length_eraseIdx_of_lt h] at hlength
  omega

theorem saved_deletePlot_iff (hm : m.Sound) (hsaved : m.Saved) (row : Option ℕ) :
    (m.deletePlot row).Saved ↔ m.Keeps (.deletePlot row) := by
  unfold deletePlot
  split
  · rename_i k i hk
    obtain ⟨g, hg⟩ : ∃ g, m.graphs[k]? = some g := ⟨_, List.getElem?_eq_getElem (hm.current k hk)⟩
    have hkeeps : m.Keeps (.deletePlot (some i)) ↔ g.plots.length ≤ i := by
      constructor
      · intro hall
        exact hall k g i hk hg rfl
      · intro hle k' g' i' hk' hg' hi'
        cases hk.symm.trans hk'
        cases hg.symm.trans hg'
        cases hi'
        exact hle
    rw [hkeeps, Saved]
    simp only
    rw [show readConfigFile m.config = m.graphs from hsaved]
    constructor
    · intro heq
      by_contra hlt
      have hsame := congrArg (fun graphs : List Graph => graphs[k]?.map Graph.plots) heq
      have hplots : g.plots = g.plots.eraseIdx i := by simpa [List.getElem?_modify, hg] using hsame
      exact length_eraseIdx_ne (not_le.mp hlt) hplots.symm
    · intro hle
      apply List.ext_getElem?
      intro j
      rw [List.getElem?_modify]
      by_cases hj : k = j
      · subst hj
        rw [hg]
        simp [List.eraseIdx_of_length_le hle]
      · simp [hj]
  · rename_i hnot
    refine iff_of_true hsaved ?_
    intro k g i hk _ hi
    exact absurd hi (hnot k i hk)

theorem step_sound {e : Event} (hm : m.Sound) (h : m.step e = some m') : m'.Sound := by
  cases e with
  | setGraphName text =>
    cases h
    exact hm.modifyCurrent fun _ hnamed => hnamed
  | setPollInterval v =>
    obtain ⟨-, rfl⟩ := Option.ite_some_none_eq_some.mp h
    have hspin : { m with spin := v }.Sound := ⟨hm.current, hm.named⟩
    exact hspin.modifyCurrent fun _ hnamed => hnamed
  | add garbage =>
    cases h
    exact (hm.add garbage).1
  | delete next =>
    cases h
    rcases delete_cases hm next with ⟨-, hsame⟩ | ⟨k, -, hsound, -⟩
    · rw [hsame]
      exact hm
    · exact hsound
  | select i =>
    cases h
    exact hm.selectedGraph i
  | addPlot garbage form =>
    cases h
    cases form with
    | none => exact hm
    | some form => exact hm.modifyCurrent fun g hnamed => fill_named form garbage hnamed
  | editPlot row form =>
    obtain ⟨-, rfl⟩ := Option.ite_some_none_eq_some.mp h
    cases form with
    | none => exact hm
    | some form => exact hm.modifyCurrent fun g hnamed => edit_named form row hnamed
  | deletePlot row =>
    cases h
    unfold deletePlot
    split
    · exact hm.modify _ fun g hnamed p hp => hnamed p (List.mem_of_mem_eraseIdx hp)
    · exact hm

/-- An operation keeps the agreement exactly if it deletes nothing that stays in the file. -/
theorem step_saved_iff {e : Event} (hm : m.Sound) (hsaved : m.Saved) (h : m.step e = some m') :
    m'.Saved ↔ m.Keeps e := by
  cases e with
  | setGraphName text =>
    cases h
    exact iff_of_true (saved_modifyCurrent hm hsaved fun _ hnamed => hnamed) trivial
  | setPollInterval v =>
    obtain ⟨-, rfl⟩ := Option.ite_some_none_eq_some.mp h
    have hspin : { m with spin := v }.Sound := ⟨hm.current, hm.named⟩
    exact iff_of_true (saved_modifyCurrent hspin hsaved fun _ hnamed => hnamed) trivial
  | add garbage =>
    cases h
    exact iff_of_true (hm.add garbage).2 trivial
  | delete next =>
    cases h
    rcases delete_cases hm next with ⟨hnone, hsame⟩ | ⟨k, hk, -, ⟨hkeeps, hwritten⟩ | ⟨hkeeps, hconfig, hgraphs⟩⟩
    · rw [hsame]
      refine iff_of_true hsaved ?_
      intro k hk
      cases hnone.symm.trans hk
    · exact iff_of_true hwritten hkeeps
    · refine iff_of_false ?_ hkeeps
      rw [Saved, hconfig, hgraphs, show readConfigFile m.config = m.graphs from hsaved]
      exact (length_eraseIdx_ne (hm.current k hk)).symm
  | select i =>
    cases h
    exact iff_of_true (saved_selectedGraph hm hsaved i) trivial
  | addPlot garbage form =>
    cases h
    refine iff_of_true ?_ trivial
    cases form with
    | none => exact hsaved
    | some form => exact saved_modifyCurrent hm hsaved fun g hnamed => fill_named form garbage hnamed
  | editPlot row form =>
    obtain ⟨-, rfl⟩ := Option.ite_some_none_eq_some.mp h
    refine iff_of_true ?_ trivial
    cases form with
    | none => exact hsaved
    | some form => exact saved_modifyCurrent hm hsaved fun g hnamed => edit_named form row hnamed
  | deletePlot row =>
    cases h
    exact saved_deletePlot_iff hm hsaved row

theorem start_sound (config : List Graph) : (start config).Sound ∧ (start config).Saved := by
  have hread : { graphs := readConfigFile config, currentgraph := none, spin := 3, config := config :
      GraphManager }.Sound := ⟨fun _ hk => (nomatch hk), named_readConfigFile config⟩
  exact ⟨hread.selectedGraph 0, saved_selectedGraph hread rfl 0⟩

/-- Main result: from the start on, the file agrees with the graphs after every operation exactly if
no operation deletes anything without a graph being written in its place. -/
theorem saved_iff_each {config : List Graph} {es : List Event} (h : Runs.exec step (start config) es = some m') :
    (∀ done, done <+: es → ∀ m, Runs.exec step (start config) done = some m → m.Saved) ↔
      Runs.Each step Keeps (start config) es := by
  obtain ⟨hsound, hsaved⟩ := start_sound config
  exact Runs.reached_iff_each_of (fun _ _ _ => step_sound)
    (fun _ _ _ hm hsaved hstep => step_saved_iff hm hsaved hstep) hsound hsaved h

/-- One graph with one plot, as they are in the file. -/
def oneGraph : List Graph := [⟨"traffic", 3, [⟨"router: 1.3.6.1", "router", 1, 0, 0, 0, "1.3.6.1"⟩]⟩]

theorem saved_iff_each_oneGraph :
    (∀ done, done <+: [Event.setGraphName "load", .deletePlot none] → ∀ m,
        Runs.exec step (start oneGraph) done = some m → m.Saved) ↔
      Runs.Each step Keeps (start oneGraph) [.setGraphName "load", .deletePlot none] :=
  saved_iff_each rfl

/-- The plot is deleted, and the file still has it; so it does with the graph. -/
theorem delete_stays_in_file :
    ¬ ∀ (config : List Graph) (es : List Event) (m : GraphManager), Runs.exec step (start config) es = some m →
      m.Saved := by
  intro h
  have hplot := h oneGraph [.deletePlot (some 0)] _ rfl
  revert hplot
  unfold Saved
  decide

end GraphManager

end SnmpB.Graphs
