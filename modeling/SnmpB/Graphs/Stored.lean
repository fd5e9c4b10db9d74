import SnmpB.Graphs.Config
import SnmpB.Library.KeyStore
import SnmpB.Library.Loop

/-! # The keys of the graphs

The graphs are a counted array, and the plots of each graph are numbered groups
without a count: the reader ends at the first group without a name. That no plot
is lost rests on the names of the plots, and that no old one comes back on the
removal of the array before it is written.
-/
namespace SnmpB.Graphs
open KeyStore

variable {V : Type} (c : Codecs V)

def Plot.write (p : Plot) (s : Store V) : Store V :=
  let s := setValue ["name"] (c.string.encode p.name) s
  let s := setValue ["agent"] (c.string.encode p.agentname) s
  let s := setValue ["proto"] (c.int.encode p.proto) s
  let s := setValue ["color"] (c.int.encode p.color) s
  let s := setValue ["width"] (c.int.encode p.width) s
  let s := setValue ["shape"] (c.int.encode p.shape) s
  setValue ["oid"] (c.string.encode p.oid) s

namespace Graph

/-- `WritePlotConfig`. -/
def writePlotConfig (g : Graph) : Store V → Store V := writeNumbered (Plot.write c) 0 g.plots

def write (g : Graph) (s : Store V) : Store V :=
  let s := setValue ["name"] (c.string.encode g.name) s
  let s := setValue ["pollinterval"] (c.int.encode g.pollInterval) s
  g.writePlotConfig c s

end Graph

/-- `AddPlot` with the name that was read, and the other fields. -/
def storedPlot (s : Store V) : Plot where
  name := c.string.decode (s ["name"])
  agentname := c.string.decode (s ["agent"])
  proto := c.int.decode (s ["proto"])
  color := c.int.decode (s ["color"])
  width := c.int.decode (s ["width"])
  shape := c.int.decode (s ["shape"])
  oid := c.string.decode (s ["oid"])

/-- One pass of `ReadPlotConfig`, with the number of the group and the plots so far. -/
def readPlot (s : Store V) : ℕ × List Plot → (ℕ × List Plot) ⊕ List Plot
  | (i, plots) =>
    let group := sub (toString i) s
    if c.string.decode (some ((group ["name"]).getD (c.string.encode ""))) = "" then .inr plots
    else .inl (i + 1, plots ++ [storedPlot c group])

def readGraph (fuel : ℕ) (s : Store V) : Option Graph :=
  (Loop.run (readPlot c s) fuel (0, [])).map fun plots =>
    ⟨c.string.decode (s ["name"]), c.int.decode (s ["pollinterval"]), plots⟩

/-- `ReadConfigFile`, as far as the fuel takes the plots of each graph. -/
def readSettings (fuel : ℕ) (s : Store V) : Option (List Graph) := (records c.int "graphs" s).mapM (readGraph c fuel)

/-- `WriteConfigFile` into the settings. -/
def GraphManager.writeSettings (m : GraphManager) : Store V → Store V :=
  writeArray c.int "graphs" (Graph.write c) m.graphs

theorem storedPlot_write (p : Plot) : storedPlot c (p.write c empty) = p := by
  simp [storedPlot, Plot.write, setValue, Codec.decode_encode]

theorem write_name (p : Plot) : (p.write c empty) ["name"] = some (c.string.encode p.name) := by
  simp [Plot.write, setValue]

/-- A graph has the groups of its plots, and nothing in any other numbered group. -/
theorem sub_write (g : Graph) (i : ℕ) :
    sub (toString i) (g.write c empty) = (g.plots[i]?.map (Plot.write c · empty)).getD empty := by
  have hempty : sub (toString i)
      (setValue ["pollinterval"] (c.int.encode g.pollInterval)
        (setValue ["name"] (c.string.encode g.name) empty)) = empty := by
    rw [sub_setValue_ne (ne_toString (by decide) i).symm, sub_setValue_ne (ne_toString (by decide) i).symm]
    rfl
  rw [Graph.write, Graph.writePlotConfig]
  cases hi : g.plots[i]? with
  | none =>
    have hrest := sub_writeNumbered_ge (Plot.write c) (i := 0) (List.getElem?_eq_none_iff.mp hi)
      (setValue ["pollinterval"] (c.int.encode g.pollInterval) (setValue ["name"] (c.string.encode g.name) empty))
    rw [Nat.zero_add, hempty] at hrest
    exact hrest
  | some p =>
    have hplot := sub_writeNumbered (Plot.write c) (i := 0) hi
      (setValue ["pollinterval"] (c.int.encode g.pollInterval) (setValue ["name"] (c.string.encode g.name) empty))
    rw [Nat.zero_add, hempty] at hplot
    exact hplot

/-- The reader goes through the plots in order and leaves behind the last one. -/
theorem run_readPlot {s : Store V} (done : List Plot) {todo : List Plot}
    (hgroups : ∀ i : ℕ, sub (toString i) s = ((done ++ todo)[i]?.map (Plot.write c · empty)).getD empty)
    (hnamed : ∀ p ∈ todo, p.name ≠ "") :
    Loop.run (readPlot c s) (todo.length + 1) (done.length, done) = some (done ++ todo) := by
  induction todo generalizing done with
  | nil =>
    have hlast : sub (toString done.length) s = empty := by
      rw [hgroups]
      simp
    have hleave : readPlot c s (done.length, done) = .inr done := by
      simp only [readPlot, hlast]
      simp [empty, Codec.decode_encode]
    rw [List.length_nil, Loop.run, hleave, List.append_nil]
  | cons p todo ih =>
    have hgroup : sub (toString done.length) s = p.write c empty := by
      rw [hgroups]
      simp
    have hjump : readPlot c s (done.length, done) = .inl (done.length + 1, done ++ [p]) := by
      simp only [readPlot, hgroup, write_name, storedPlot_write, Option.getD_some, Codec.decode_encode]
      exact if_neg (hnamed p List.mem_cons_self)
    have hrest := ih (done ++ [p]) (by simpa using hgroups)
      fun q hq => hnamed q (List.mem_cons_of_mem p hq)
    rw [List.length_cons, Loop.run, hjump]
    simpa using hrest

theorem readGraph_write {g : Graph} (hnamed : ∀ p ∈ g.plots, p.name ≠ "") {fuel : ℕ}
    (hfuel : g.plots.length < fuel) : readGraph c fuel (g.write c empty) = some g := by
  have hplots := run_readPlot c [] (sub_write c g) hnamed
  have hname : g.write c empty ["name"] = some (c.string.encode g.name) := by
    rw [Graph.write, Graph.writePlotConfig, writeNumbered_apply _ (ne_toString (by decide))]
    simp [setValue]
  have hinterval : g.write c empty ["pollinterval"] = some (c.int.encode g.pollInterval) := by
    rw [Graph.write, Graph.writePlotConfig, writeNumbered_apply _ (ne_toString (by decide))]
    simp [setValue]
  rw [readGraph, hname, hinterval, c.string.decode_encode, c.int.decode_encode]
  exact congrArg (Option.map _) (Loop.run_mono hplots hfuel)

/-- Enough fuel for every graph of a list. -/
def enoughFuel (graphs : List Graph) : ℕ := graphs.foldr (fun g fuel => max (g.plots.length + 1) fuel) 0

theorem lt_enoughFuel {graphs : List Graph} {g : Graph} (h : g ∈ graphs) : g.plots.length < enoughFuel graphs := by
  induction graphs with
  | nil => cases h
  | cons g' graphs ih =>
    have hcons : enoughFuel (g' :: graphs) = max (g'.plots.length + 1) (enoughFuel graphs) := rfl
    rcases List.mem_cons.mp h with rfl | h
    · omega
    · have := ih h
      omega

theorem mapM_map_eq_some {α β : Type} {f : α → β} {g : β → Option α} {l : List α}
    (h : ∀ a ∈ l, g (f a) = some a) : (l.map f).mapM g = some l := by
  induction l with
  | nil => rfl
  | cons a l ih =>
    rw [List.map_cons, List.mapM_cons, h a List.mem_cons_self, ih fun b hb => h b (List.mem_cons_of_mem a hb)]
    rfl

/-- Graphs whose plots have names are read back, whatever the file had before. -/
theorem readSettings_write {m : GraphManager} (hnamed : ∀ g ∈ m.graphs, ∀ p ∈ g.plots, p.name ≠ "")
    {fuel : ℕ} (hfuel : enoughFuel m.graphs ≤ fuel) (s : Store V) :
    readSettings c fuel (m.writeSettings c s) = some m.graphs := by
  rw [readSettings, GraphManager.writeSettings, records_writeArray]
  apply mapM_map_eq_some
  intro g hg
  exact readGraph_write c (hnamed g hg) (Nat.lt_of_lt_of_le (lt_enoughFuel hg) hfuel)

/-! ## Any file -/

/-- Main result: whatever was read at the start and happened since, what is stored over any other file
is read back as the same graphs with the same plots. -/
theorem stored_graphs_read {config : List Graph} {es : List GraphManager.Event} {m : GraphManager}
    (h : Runs.exec GraphManager.step (GraphManager.start config) es = some m) :
    ∃ enough, ∀ fuel ≥ enough, ∀ s : Store V, readSettings c fuel (m.writeSettings c s) = some m.graphs := by
  have hsound : m.Sound := Runs.exec_invariant (P := GraphManager.Sound)
    (fun _ _ _ => GraphManager.step_sound) (GraphManager.start_sound config).1 h
  exact ⟨enoughFuel m.graphs, fun _ hfuel s => readSettings_write c hsound.named hfuel s⟩

theorem stored_graphs_read_oneGraph :
    ∃ m, Runs.exec GraphManager.step (GraphManager.start GraphManager.oneGraph)
        [.addPlot 0 (some ⟨"switch", none, 0, 0, 0, "1.3.6.1"⟩), .deletePlot (some 0)] = some m ∧
      ∃ enough, ∀ fuel ≥ enough, ∀ s : Store Variant,
        readSettings Variant.codecs fuel (m.writeSettings Variant.codecs s) = some m.graphs :=
  ⟨_, rfl, @stored_graphs_read _ Variant.codecs GraphManager.oneGraph
    [.addPlot 0 (some ⟨"switch", none, 0, 0, 0, "1.3.6.1"⟩), .deletePlot (some 0)] _ rfl⟩

end SnmpB.Graphs
