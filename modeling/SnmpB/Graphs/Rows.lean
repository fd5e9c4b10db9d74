import SnmpB.Graphs.Config
import SnmpB.Library.Lens
import Mathlib.Data.List.InsertIdx
import Mathlib.Data.List.Nodup

/-! # The rows of the two lists

Every graph has an item in the list of graphs and every plot one in the list of
plots, which all graphs share. The current item of the list of graphs selects a
graph, and the index of a plot in its graph is taken for the index of its row.
-/
namespace SnmpB.Graphs

/-- `item` of a graph, and of each of its plots. -/
structure GraphItems where
  item : ℕ
  plots : List ℕ
  deriving DecidableEq

/-- The manager with the items of its graphs, and the rows and current items of both lists. -/
structure Lists where
  manager : GraphManager
  items : List GraphItems
  graphList : List ℕ
  graphItem : Option ℕ
  plotList : List ℕ
  plotItem : Option ℕ
  fresh : ℕ

namespace Lists

/-- The graph of an item: `item == graphs[i]->GetWidgetItem()`. -/
def indexOf (d : Lists) (item : ℕ) : Option ℕ := d.items.findIdx? (·.item == item)

/-- `SelectGraph`: "Unlink all elements from list", and put in those of the graph from the last one on. -/
def selectGraph (d : Lists) (i : ℕ) : Lists :=
  match d.items[i]? with
  | none => d
  | some g => { d with
    manager := d.manager.selectedGraph i
    plotList := g.plots.foldr (fun item rows => item :: rows) []
    plotItem := none }

def selectedGraph (d : Lists) (item : ℕ) : Lists := (d.indexOf item).elim d d.selectGraph

/-- `setCurrentItem` of the list of graphs, which calls `SelectedGraph` when the item is another one. -/
def setCurrentItem (d : Lists) (item : Option ℕ) : Lists :=
  if d.graphItem = item then d
  else
    let d := { d with graphItem := item }
    item.elim d d.selectedGraph

/-- The constructor of a graph, and its place in the list. -/
def newGraph (d : Lists) (name : String) (pollInterval : ℤ) : Lists :=
  { d with
    manager := { d.manager with graphs := d.manager.graphs ++ [⟨name, pollInterval, []⟩] }
    items := d.items ++ [⟨d.fresh, []⟩]
    graphList := d.graphList ++ [d.fresh]
    fresh := d.fresh + 1 }

/-- `Graph::AddPlot` of the graph `k`, with the fields of the plot. -/
def newPlot (d : Lists) (k : ℕ) (p : Plot) : Lists :=
  { d with
    manager := { d.manager with graphs := d.manager.graphs.modify k fun g => { g with plots := g.plots ++ [p] } }
    items := d.items.modify k fun g => { g with plots := g.plots ++ [d.fresh] }
    plotList := d.plotList ++ [d.fresh]
    plotItem := some d.fresh
    fresh := d.fresh + 1 }

/-- One pass of `ReadConfigFile`. -/
def readGraph (d : Lists) (g : Graph) : Lists :=
  g.plots.foldl (fun d' p => d'.newPlot d.items.length p) (d.newGraph g.name g.pollInterval)

/-- The end of the constructor: the file is read, and its first graph is selected. -/
def load (config : List Graph) : Lists :=
  let d : Lists := (readConfigFile config).foldl readGraph
    ⟨{ graphs := [], currentgraph := none, spin := 3, config := config }, [], [], none, [], none, 0⟩
  d.setCurrentItem d.graphList.head?

def add (d : Lists) (garbage : ℤ) : Lists :=
  let d := (d.newGraph "newgraph" garbage).setCurrentItem (some d.fresh)
  { d with manager := d.manager.writeConfigFile }

/-- `delete ui->GraphList->takeItem(k)`; the list first turns to another item when this is the current one. -/
def takeGraphItem (d : Lists) (k : ℕ) (next : Option ℕ) : Lists :=
  let turned := if d.graphItem.any (d.graphList[k]? == some ·) then d.setCurrentItem next else d
  { turned with graphList := turned.graphList.eraseIdx k }

/-- `Delete`, with the item that the list turns to. -/
def delete (d : Lists) (next : Option ℕ) : Lists :=
  match d.manager.currentgraph with
  | none => d
  | some k =>
    let d := { d with manager := d.manager.takeAt k, items := d.items.eraseIdx k }.takeGraphItem k next
    { d with manager := d.manager.readjust (d.graphItem.bind d.indexOf) }

/-- `Graph::FindPlot` of the current graph, and the search in `Graph::DeletePlot`. -/
def findPlot (d : Lists) (item : ℕ) : Option ℕ :=
  d.manager.currentgraph.bind fun k => d.items[k]?.bind fun g => g.plots.findIdx? (· == item)

def addPlot (d : Lists) (garbage : ℤ) (form : Option PlotForm) : Lists :=
  match d.manager.currentgraph, form with
  | some k, some form =>
    let d := d.newPlot k (form.fill ⟨form.plotname, "", garbage, 0, 0, 0, ""⟩)
    { d with manager := d.manager.writeConfigFile }
  | _, _ => d

/-- `EditPlot`; it follows the pointer that `FindPlot` returns, and without one there is no next state. -/
def editPlot (d : Lists) (item : ℕ) (form : Option PlotForm) : Option Lists :=
  match d.manager.currentgraph with
  | none => some d
  | some _ => (d.findPlot item).map fun row => { d with manager := d.manager.editPlot row form }

/-- `DeletePlot`; the row is taken from the list by the index of the plot in its graph. -/
def deletePlot (d : Lists) (next : Option ℕ) : Lists :=
  match d.manager.currentgraph, d.plotItem.bind d.findPlot with
  | some k, some i =>
    { d with
      manager := d.manager.deletePlot (some i)
      items := d.items.modify k fun g => { g with plots := g.plots.eraseIdx i }
      plotList := d.plotList.eraseIdx i
      plotItem := if d.plotList[i]? = d.plotItem then next else d.plotItem }
  | _, _ => d

inductive Event
  | setGraphName (text : String)
  | setPollInterval (v : ℤ)
  | add (garbage : ℤ)
  | delete (next : Option ℕ)
  | select (item : ℕ)
  | addPlot (garbage : ℤ) (form : Option PlotForm)
  | editPlot (item : ℕ) (form : Option PlotForm)
  | selectPlot (item : ℕ)
  | deletePlot (next : Option ℕ)

/-- A list turns to one of the rows that stay, or to none. -/
def step (d : Lists) : Event → Option Lists
  | .setGraphName text => some { d with manager := d.manager.setGraphName text }
  | .setPollInterval v => (d.manager.step (.setPollInterval v)).map fun manager => { d with manager }
  | .add garbage => some (d.add garbage)
  | .delete next =>
    if next.all (· ∈ d.manager.currentgraph.elim d.graphList d.graphList.eraseIdx) then some (d.delete next)
    else none
  | .select item => if item ∈ d.graphList then some (d.setCurrentItem (some item)) else none
  | .addPlot garbage form => some (d.addPlot garbage form)
  | .editPlot item form => if item ∈ d.plotList then d.editPlot item form else none
  | .selectPlot item => if item ∈ d.plotList then some { d with plotItem := some item } else none
  | .deletePlot next =>
    if next.all fun item => d.plotList.contains item && d.plotItem != some item then some (d.deletePlot next)
    else none

/-! ## Items and graphs -/

/-- Every graph and every plot has an item of its own. -/
structure Matched (d : Lists) : Prop where
  counts : d.items.map (·.plots.length) = d.manager.graphs.map (·.plots.length)
  nodup : (d.items.map GraphItems.item).Nodup
  plots : ∀ g ∈ d.items, g.plots.Nodup
  below : ∀ g ∈ d.items, g.item < d.fresh ∧ ∀ item ∈ g.plots, item < d.fresh

/-- The lists show the graphs, and the current graph with its plots. -/
structure Aligned (d : Lists) : Prop extends Matched d where
  list : d.graphList = d.items.map GraphItems.item
  graphItem : ∀ item, d.graphItem = some item → item ∈ d.graphList
  current : d.manager.currentgraph = d.graphItem.bind d.indexOf
  rows : ∀ k g, d.manager.currentgraph = some k → d.items[k]? = some g → d.plotList = g.plots

theorem findIdx?_of_nodup {α : Type} {f : α → ℕ} {l : List α} {i : ℕ} {a : α} (h : (l.map f).Nodup)
    (ha : l[i]? = some a) : l.findIdx? (f · == f a) = some i := by
  obtain ⟨hi, rfl⟩ := List.getElem?_eq_some_iff.mp ha
  apply List.findIdx?_eq_some_iff_getElem.mpr
  refine ⟨hi, by simp, ?_⟩
  intro j hji hsame
  have hinj := List.nodup_iff_injective_get.mp h
  have heq := @hinj ⟨j, by simp; omega⟩ ⟨i, by simpa using hi⟩ (by simpa using hsame)
  simp only [Fin.mk.injEq] at heq
  omega

variable {d : Lists}

theorem Matched.length (h : d.Matched) : d.items.length = d.manager.graphs.length := by
  simpa using congrArg List.length h.counts

theorem Matched.indexOf (h : d.Matched) {i : ℕ} {g : GraphItems} (hg : d.items[i]? = some g) :
    d.indexOf g.item = some i :=
  findIdx?_of_nodup h.nodup hg

theorem indexOf_eq_some {item i : ℕ} (h : d.indexOf item = some i) :
    ∃ g, d.items[i]? = some g ∧ g.item = item := by
  obtain ⟨hi, hitem, -⟩ := List.findIdx?_eq_some_iff_getElem.mp h
  exact ⟨d.items[i], List.getElem?_eq_getElem hi, by simpa using hitem⟩

theorem Matched.mem_item_iff (h : d.Matched) {item : ℕ} :
    item ∈ d.items.map GraphItems.item ↔ ∃ i, d.indexOf item = some i := by
  constructor
  · intro hitem
    obtain ⟨i, hi⟩ := List.mem_iff_getElem?.mp hitem
    rw [List.getElem?_map, Option.map_eq_some_iff] at hi
    obtain ⟨g, hg, rfl⟩ := hi
    exact ⟨i, h.indexOf hg⟩
  · rintro ⟨i, hi⟩
    obtain ⟨g, hg, rfl⟩ := indexOf_eq_some hi
    exact List.mem_map_of_mem (List.mem_of_getElem? hg)

/-- The contents may change as long as the graphs keep their number of plots. -/
theorem Matched.setManager (h : d.Matched) {manager : GraphManager}
    (hcounts : manager.graphs.map (·.plots.length) = d.manager.graphs.map (·.plots.length)) :
    { d with manager }.Matched :=
  ⟨h.counts.trans hcounts.symm, h.nodup, h.plots, h.below⟩

theorem map_item_modify (items : List GraphItems) (k : ℕ) (f : List ℕ → List ℕ) :
    (items.modify k fun g => { g with plots := f g.plots }).map GraphItems.item = items.map GraphItems.item :=
  Live.map_modify (f := GraphItems.item) (g := fun g => { g with plots := f g.plots }) (fun _ => rfl) items k

end Lists

namespace GraphManager

/-- Writing into the current graph leaves it the current one. -/
theorem modifyCurrent_counts (m : GraphManager) {f : Graph → Graph}
    (hf : ∀ g, (f g).plots.length = g.plots.length) :
    (m.modifyCurrent f).graphs.map (·.plots.length) = m.graphs.map (·.plots.length) ∧
      (m.modifyCurrent f).currentgraph = m.currentgraph := by
  unfold modifyCurrent
  split
  · exact ⟨rfl, rfl⟩
  · exact ⟨Live.map_modify hf _ _, rfl⟩

theorem modifyCurrent_some {m : GraphManager} {k : ℕ} (hk : m.currentgraph = some k) (f : Graph → Graph) :
    m.modifyCurrent f = { m with graphs := m.graphs.modify k f }.writeConfigFile := by
  unfold modifyCurrent
  rw [hk]

theorem setPollInterval_counts (m : GraphManager) (v : ℤ) :
    (m.setPollInterval v).graphs.map (·.plots.length) = m.graphs.map (·.plots.length) ∧
      (m.setPollInterval v).currentgraph = m.currentgraph :=
  modifyCurrent_counts { m with spin := v } fun _ => rfl

theorem selectedGraph_counts (m : GraphManager) {i : ℕ} (hi : i < m.graphs.length) :
    (m.selectedGraph i).graphs.map (·.plots.length) = m.graphs.map (·.plots.length) ∧
      (m.selectedGraph i).currentgraph = some i := by
  unfold selectedGraph
  rw [List.getElem?_eq_getElem hi]
  simp only [setValue]
  split
  · exact ⟨rfl, rfl⟩
  · exact setPollInterval_counts { m with currentgraph := some i } _

end GraphManager

namespace Lists

variable {d : Lists}

/-- The list of graphs has turned to the item of the graph `i`, and the list of plots shows its plots. -/
structure Turned (d d' : Lists) (i : ℕ) (g : GraphItems) : Prop where
  manager : d'.manager = d.manager.selectedGraph i
  items : d'.items = d.items
  graphList : d'.graphList = d.graphList
  graphItem : d'.graphItem = some g.item
  plotList : d'.plotList = g.plots
  fresh : d'.fresh = d.fresh

theorem Matched.turned (h : d.Matched) {i : ℕ} {g : GraphItems} (hg : d.items[i]? = some g)
    (hne : d.graphItem ≠ some g.item) : Turned d (d.setCurrentItem (some g.item)) i g := by
  have hindex : { d with graphItem := some g.item }.indexOf g.item = some i := h.indexOf hg
  rw [setCurrentItem, if_neg hne]
  simp only [Option.elim_some, selectedGraph, hindex, selectGraph, hg]
  exact ⟨rfl, rfl, rfl, rfl, List.foldr_cons_nil, rfl⟩

variable {d' : Lists} {i : ℕ} {g : GraphItems}

theorem Turned.matched (h : Turned d d' i g) (hd : d.Matched) (hi : i < d.items.length) : d'.Matched := by
  have hcounts := (d.manager.selectedGraph_counts (hd.length ▸ hi)).1
  rw [← h.manager] at hcounts
  constructor
  · rw [h.items, hcounts]
    exact hd.counts
  · rw [h.items]
    exact hd.nodup
  · rw [h.items]
    exact hd.plots
  · rw [h.items, h.fresh]
    exact hd.below

theorem Turned.current (h : Turned d d' i g) (hd : d.Matched) (hi : i < d.items.length) :
    d'.manager.currentgraph = some i := by
  rw [h.manager]
  exact (d.manager.selectedGraph_counts (hd.length ▸ hi)).2

/-- A selection shows the plots of the graph it turns to. -/
theorem Turned.aligned (h : Turned d d' i g) (hd : d.Matched) (hg : d.items[i]? = some g)
    (hlist : d.graphList = d.items.map GraphItems.item) : d'.Aligned := by
  obtain ⟨hi, -⟩ := List.getElem?_eq_some_iff.mp hg
  have hmatched := h.matched hd hi
  have hcurrent := h.current hd hi
  have hg' : d'.items[i]? = some g := by
    rw [h.items]
    exact hg
  refine ⟨hmatched, ?_, ?_, ?_, ?_⟩
  · rw [h.graphList, h.items]
    exact hlist
  · intro item hitem
    obtain rfl : g.item = item := Option.some.inj (h.graphItem.symm.trans hitem)
    rw [h.graphList, hlist]
    exact List.mem_map_of_mem (List.mem_of_getElem? hg)
  · rw [hcurrent, h.graphItem, Option.bind_some, hmatched.indexOf hg']
  · intro k g' hk hg''
    obtain rfl : i = k := Option.some.inj (hcurrent.symm.trans hk)
    obtain rfl : g = g' := Option.some.inj (hg'.symm.trans hg'')
    exact h.plotList

theorem Aligned.setCurrentItem (h : d.Aligned) {item : ℕ} (hitem : item ∈ d.graphList) :
    (d.setCurrentItem (some item)).Aligned := by
  by_cases hsame : d.graphItem = some item
  · rw [Lists.setCurrentItem, if_pos hsame]
    exact h
  · rw [h.list, h.mem_item_iff] at hitem
    obtain ⟨i, hi⟩ := hitem
    obtain ⟨g, hg, rfl⟩ := indexOf_eq_some hi
    exact (h.toMatched.turned hg hsame).aligned h.toMatched hg h.list

/-! ## The operations keep the rows -/

theorem Matched.newGraph (h : d.Matched) (name : String) (pollInterval : ℤ) :
    (d.newGraph name pollInterval).Matched where
  counts := by simp [Lists.newGraph, h.counts]
  nodup := by
    rw [Lists.newGraph, List.map_append, List.map_singleton, ← List.concat_eq_append]
    apply h.nodup.concat
    intro hmem
    obtain ⟨g, hg, heq⟩ := List.mem_map.mp hmem
    have hlt := (h.below g hg).1
    rw [heq] at hlt
    exact Nat.lt_irrefl _ hlt
  plots g hg := by
    rcases List.mem_append.mp hg with hg | hg
    · exact h.plots g hg
    · rw [List.mem_singleton.mp hg]
      exact List.nodup_nil
  below g hg := by
    rcases List.mem_append.mp hg with hg | hg
    · obtain ⟨hitem, hplots⟩ := h.below g hg
      exact ⟨Nat.lt_succ_of_lt hitem, fun item hmem => Nat.lt_succ_of_lt (hplots item hmem)⟩
    · rw [List.mem_singleton.mp hg]
      exact ⟨Nat.lt_succ_self _, fun item hmem => (nomatch hmem)⟩

/-- The plots of one graph change, in its items as in its contents. -/
theorem Matched.modify (h : d.Matched) (k : ℕ) (f : List ℕ → List ℕ) (f' : List Plot → List Plot) (fresh : ℕ)
    {n : ℕ → ℕ} (hlength : ∀ l, (f l).length = n l.length) (hlength' : ∀ l, (f' l).length = n l.length)
    (hf : ∀ g ∈ d.items, (f g.plots).Nodup ∧ ∀ item ∈ f g.plots, item < fresh) (hfresh : d.fresh ≤ fresh) :
    { d with
      manager := { d.manager with graphs := d.manager.graphs.modify k fun g => { g with plots := f' g.plots } }
      items := d.items.modify k fun g => { g with plots := f g.plots }
      fresh }.Matched where
  counts := by
    have hcounts := h.counts
    apply List.ext_getElem?
    intro j
    have hj := congrArg (·[j]?) hcounts
    simp only [List.getElem?_map, List.getElem?_modify] at hj ⊢
    cases hitems : d.items[j]? with
    | none => cases hgraphs : d.manager.graphs[j]? <;> simp_all
    | some g =>
      cases hgraphs : d.manager.graphs[j]? with
      | none => simp_all
      | some g' =>
        have hsame : g.plots.length = g'.plots.length := by simpa [hitems, hgraphs] using hj
        by_cases hk : k = j <;> simp [hk, hlength, hlength', hsame]
  nodup := by
    rw [map_item_modify]
    exact h.nodup
  plots g hg := by
    rcases Live.mem_modify hg with hg | ⟨g', hg', rfl⟩
    · exact h.plots g hg
    · exact (hf g' hg').1
  below g hg := by
    rcases Live.mem_modify hg with hg | ⟨g', hg', rfl⟩
    · obtain ⟨hitem, hplots⟩ := h.below g hg
      exact ⟨Nat.lt_of_lt_of_le hitem hfresh, fun item hmem => Nat.lt_of_lt_of_le (hplots item hmem) hfresh⟩
    · exact ⟨Nat.lt_of_lt_of_le (h.below g' hg').1 hfresh, (hf g' hg').2⟩

theorem Matched.newPlot (h : d.Matched) (k : ℕ) (p : Plot) : (d.newPlot k p).Matched := by
  have hnew := h.modify k (· ++ [d.fresh]) (· ++ [p]) (d.fresh + 1) (n := (· + 1))
    (by simp) (by simp) ?_ (Nat.le_succ _)
  · exact ⟨hnew.counts, hnew.nodup, hnew.plots, hnew.below⟩
  · intro g hg
    obtain ⟨-, hplots⟩ := h.below g hg
    constructor
    · rw [← List.concat_eq_append]
      exact (h.plots g hg).concat fun hmem => Nat.lt_irrefl _ (hplots _ hmem)
    · intro item hitem
      rcases List.mem_append.mp hitem with hitem | hitem
      · exact Nat.lt_succ_of_lt (hplots item hitem)
      · rw [List.mem_singleton.mp hitem]
        exact Nat.lt_succ_self _

theorem indexOf_eq (d : Lists) (item : ℕ) : d.indexOf item = (d.items.map GraphItems.item).findIdx? (· == item) := by
  rw [List.findIdx?_map]
  rfl

/-- The same graphs are shown, and the current one with its plots. -/
theorem Aligned.of_same (h : d.Aligned) (hmatched : d'.Matched)
    (hitems : d'.items.map GraphItems.item = d.items.map GraphItems.item) (hlist : d'.graphList = d.graphList)
    (hitem : d'.graphItem = d.graphItem) (hcurrent : d'.manager.currentgraph = d.manager.currentgraph)
    (hrows : ∀ k g, d.manager.currentgraph = some k → d'.items[k]? = some g → d'.plotList = g.plots) :
    d'.Aligned where
  toMatched := hmatched
  list := by rw [hlist, hitems, h.list]
  graphItem := by
    rw [hitem, hlist]
    exact h.graphItem
  current := by
    have hindex : d'.indexOf = d.indexOf := by
      funext item
      rw [indexOf_eq, indexOf_eq, hitems]
    rw [hcurrent, hitem, hindex, h.current]
  rows k g hk hg := hrows k g (hcurrent ▸ hk) hg

theorem Aligned.setManager (h : d.Aligned) {manager : GraphManager}
    (hsame : manager.graphs.map (·.plots.length) = d.manager.graphs.map (·.plots.length) ∧
      manager.currentgraph = d.manager.currentgraph) : { d with manager }.Aligned :=
  h.of_same (h.toMatched.setManager hsame.1) rfl rfl rfl hsame.2 h.rows

/-- The current graph is the one whose item is current. -/
theorem Aligned.currentGraph (h : d.Aligned) {k : ℕ} (hk : d.manager.currentgraph = some k) :
    ∃ g, d.items[k]? = some g ∧ d.graphItem = some g.item ∧ d.indexOf g.item = some k := by
  obtain ⟨item, hitem, hindex⟩ := Option.bind_eq_some_iff.mp (h.current.symm.trans hk)
  obtain ⟨g, hg, rfl⟩ := indexOf_eq_some hindex
  exact ⟨g, hg, hitem, hindex⟩

theorem Aligned.newGraph (h : d.Aligned) (name : String) (pollInterval : ℤ) :
    (d.newGraph name pollInterval).Aligned where
  toMatched := h.toMatched.newGraph name pollInterval
  list := by simp [Lists.newGraph, h.list]
  graphItem item hitem := List.mem_append_left _ (h.graphItem item hitem)
  current := by
    change d.manager.currentgraph = d.graphItem.bind (d.newGraph name pollInterval).indexOf
    rw [h.current]
    cases hitem : d.graphItem with
    | none => rfl
    | some item =>
      have hmem := h.graphItem item hitem
      rw [h.list, h.mem_item_iff] at hmem
      obtain ⟨i, hi⟩ := hmem
      have hgrown : (d.newGraph name pollInterval).indexOf item = some i := by
        change (d.items ++ [GraphItems.mk d.fresh []]).findIdx? (·.item == item) = some i
        rw [List.findIdx?_append, show d.items.findIdx? (·.item == item) = some i from hi]
        rfl
      rw [Option.bind_some, Option.bind_some, hi, hgrown]
  rows k g hk hg := by
    obtain ⟨g', hg', -⟩ := h.currentGraph hk
    have hgrown : (d.items ++ [⟨d.fresh, []⟩])[k]? = some g' := by
      rw [List.getElem?_append_left (List.getElem?_eq_some_iff.mp hg').1, hg']
    obtain rfl : g' = g := Option.some.inj (hgrown.symm.trans hg)
    exact h.rows k g' hk hg'

/-- A plot that is added to the current graph, or while there is none. -/
theorem Aligned.newPlot (h : d.Aligned) {k : ℕ} (hk : ∀ k', d.manager.currentgraph = some k' → k' = k) (p : Plot) :
    (d.newPlot k p).Aligned := by
  refine h.of_same (h.toMatched.newPlot k p) (map_item_modify d.items k (· ++ [d.fresh])) rfl rfl rfl ?_
  intro k' g hk' hg
  obtain rfl := hk k' hk'
  simp only [Lists.newPlot, List.getElem?_modify_eq] at hg
  obtain ⟨g', hg', rfl⟩ := Option.map_eq_some_iff.mp hg
  exact congrArg (· ++ [d.fresh]) (h.rows k' g' hk' hg')

theorem Aligned.graphItem_ne_fresh (h : d.Aligned) : d.graphItem ≠ some d.fresh := by
  intro hitem
  have hmem := h.graphItem d.fresh hitem
  rw [h.list] at hmem
  obtain ⟨g, hg, heq⟩ := List.mem_map.mp hmem
  have hlt := (h.below g hg).1
  omega

theorem Aligned.add (h : d.Aligned) (garbage : ℤ) : (d.add garbage).Aligned := by
  have hgrown := h.newGraph "newgraph" garbage
  have hmem : d.fresh ∈ (d.newGraph "newgraph" garbage).graphList := by simp [Lists.newGraph]
  exact (hgrown.setCurrentItem hmem).setManager ⟨rfl, rfl⟩

theorem Aligned.addPlot (h : d.Aligned) (garbage : ℤ) (form : Option PlotForm) : (d.addPlot garbage form).Aligned := by
  unfold Lists.addPlot
  split
  · rename_i k form hk
    refine (h.newPlot ?_ _).setManager ⟨rfl, rfl⟩
    intro k' hk'
    exact Option.some.inj (hk'.symm.trans hk)
  · exact h

/-- In a list that is aligned, each row of the current graph is found under its index. -/
theorem Aligned.findPlot (h : d.Aligned) {k i item : ℕ} (hk : d.manager.currentgraph = some k)
    (hitem : d.plotList[i]? = some item) : d.findPlot item = some i := by
  obtain ⟨g, hg, -⟩ := h.currentGraph hk
  rw [h.rows k g hk hg] at hitem
  have hfound := findIdx?_of_nodup (f := id) (by simpa using h.plots g (List.mem_of_getElem? hg)) hitem
  rw [Lists.findPlot, hk, Option.bind_some, hg, Option.bind_some]
  exact hfound

/-- And only the rows are found. -/
theorem Aligned.getElem?_of_findPlot (h : d.Aligned) {i item : ℕ} (hi : d.findPlot item = some i) :
    d.plotList[i]? = some item := by
  obtain ⟨k, hk, hi⟩ := Option.bind_eq_some_iff.mp hi
  obtain ⟨g, hg, hi⟩ := Option.bind_eq_some_iff.mp hi
  obtain ⟨hlt, hitem, -⟩ := List.findIdx?_eq_some_iff_getElem.mp hi
  rw [h.rows k g hk hg, List.getElem?_eq_getElem hlt]
  exact congrArg some (by simpa using hitem)

theorem Aligned.deletePlot (h : d.Aligned) (next : Option ℕ) : (d.deletePlot next).Aligned := by
  unfold Lists.deletePlot
  split
  · rename_i k i hk hi
    have hmanager : d.manager.deletePlot (some i) = { d.manager with
        graphs := d.manager.graphs.modify k fun g => { g with plots := g.plots.eraseIdx i } } := by
      simp only [GraphManager.deletePlot, hk]
    have hmatched := h.toMatched.modify k (·.eraseIdx i) (·.eraseIdx i) d.fresh
      (n := fun n => if i < n then n - 1 else n) (fun _ => List.length_eraseIdx)
      (fun _ => List.length_eraseIdx) ?_ le_rfl
    · rw [hmanager]
      refine h.of_same ⟨hmatched.counts, hmatched.nodup, hmatched.plots, hmatched.below⟩
        (map_item_modify d.items k (·.eraseIdx i)) rfl rfl rfl ?_
      intro k' g hk' hg
      obtain rfl : k = k' := Option.some.inj (hk.symm.trans hk')
      simp only [List.getElem?_modify_eq] at hg
      obtain ⟨g', hg', rfl⟩ := Option.map_eq_some_iff.mp hg
      exact congrArg (·.eraseIdx i) (h.rows k g' hk' hg')
    · intro g hg
      exact ⟨(h.plots g hg).eraseIdx i, fun item hitem => (h.below g hg).2 item (List.mem_of_mem_eraseIdx hitem)⟩
  · exact h

theorem setCurrentItem_graphList (d : Lists) (next : Option ℕ) (rows : List ℕ) :
    { d.setCurrentItem next with graphList := rows } = { d with graphList := rows }.setCurrentItem next ∧
      (d.setCurrentItem next).graphList = d.graphList := by
  unfold Lists.setCurrentItem Lists.selectedGraph Lists.selectGraph Lists.indexOf
  split
  · exact ⟨rfl, rfl⟩
  · cases next with
    | none => exact ⟨rfl, rfl⟩
    | some item =>
      simp only [Option.elim_some]
      cases d.items.findIdx? (·.item == item) with
      | none => exact ⟨rfl, rfl⟩
      | some i =>
        simp only [Option.elim_some]
        split <;> exact ⟨rfl, rfl⟩

/-- The graph and its row are gone, and nothing has been selected yet. -/
def taken (d : Lists) (k : ℕ) : Lists :=
  { d with manager := d.manager.takeAt k, items := d.items.eraseIdx k, graphList := d.graphList.eraseIdx k }

theorem Aligned.taken (h : d.Aligned) (k : ℕ) :
    (d.taken k).Matched ∧ (d.taken k).graphList = (d.taken k).items.map GraphItems.item := by
  refine ⟨⟨?_, ?_, ?_, ?_⟩, ?_⟩
  · simp only [Lists.taken, GraphManager.takeAt, ← List.eraseIdx_map, h.counts]
  · simp only [Lists.taken, ← List.eraseIdx_map]
    exact h.nodup.eraseIdx k
  · intro g hg
    exact h.plots g (List.mem_of_mem_eraseIdx hg)
  · intro g hg
    exact h.below g (List.mem_of_mem_eraseIdx hg)
  · simp only [Lists.taken, ← List.eraseIdx_map, h.list]

/-- Deleting the current graph: its row was the current one, so the list turns before the row goes. -/
theorem Aligned.delete_eq (h : d.Aligned) {k : ℕ} (hk : d.manager.currentgraph = some k) (next : Option ℕ) :
    d.delete next = { (d.taken k).setCurrentItem next with
      manager := ((d.taken k).setCurrentItem next).manager.readjust
        (((d.taken k).setCurrentItem next).graphItem.bind ((d.taken k).setCurrentItem next).indexOf) } := by
  obtain ⟨g, hg, hitem, -⟩ := h.currentGraph hk
  have hrow : d.graphList[k]? = some g.item := by
    rw [h.list, List.getElem?_map, hg]
    rfl
  have hturn : d.graphItem.any (d.graphList[k]? == some ·) = true := by
    rw [hitem, hrow]
    simp
  let erased : Lists := { d with manager := d.manager.takeAt k, items := d.items.eraseIdx k }
  have htaken : erased.takeGraphItem k next = (d.taken k).setCurrentItem next := by
    obtain ⟨hcommute, hlist⟩ := setCurrentItem_graphList erased next (d.graphList.eraseIdx k)
    have hcurrent : erased.graphItem.any (erased.graphList[k]? == some ·) = true := hturn
    simp only [takeGraphItem, hcurrent, if_true, hlist]
    exact hcommute
  rw [Lists.delete, hk]
  simp only
  rw [show ({ d with manager := d.manager.takeAt k, items := d.items.eraseIdx k } : Lists).takeGraphItem k next =
    (d.taken k).setCurrentItem next from htaken]

/-- The current graph is one of the graphs, so readjusting it to the current item changes nothing. -/
theorem Aligned.readjust (h : d.Aligned) : d.manager.readjust d.manager.currentgraph = d.manager := by
  have hkept : d.manager.currentgraph.filter (· < d.manager.graphs.length) = d.manager.currentgraph := by
    cases hk : d.manager.currentgraph with
    | none => rfl
    | some k =>
      obtain ⟨g, hg, -⟩ := h.currentGraph hk
      have hlt : k < d.manager.graphs.length := h.length ▸ (List.getElem?_eq_some_iff.mp hg).1
      simp [hlt]
  rw [GraphManager.readjust, hkept]

/-- Behind a deletion no graph is current, or the one the list has turned to. -/
theorem Aligned.delete_cases (h : d.Aligned) {k : ℕ} (hk : d.manager.currentgraph = some k) {next : Option ℕ}
    (hnext : ∀ item, next = some item → item ∈ d.graphList.eraseIdx k) :
    (next = none ∧ d.delete next =
      { d.taken k with manager := (d.taken k).manager.readjust none, graphItem := none }) ∨
    ∃ j g, next = some g.item ∧ (d.taken k).items[j]? = some g ∧ Turned (d.taken k) (d.delete next) j g := by
  obtain ⟨hmatched, hlist⟩ := h.taken k
  obtain ⟨current, -, hitem, hindex⟩ := h.currentGraph hk
  rw [h.delete_eq hk]
  cases next with
  | none =>
    have hnone : (d.taken k).setCurrentItem none = { d.taken k with graphItem := none } := by
      rw [Lists.setCurrentItem, if_neg (by rw [show (d.taken k).graphItem = some current.item from hitem]; simp)]
      rfl
    rw [hnone]
    exact Or.inl ⟨rfl, rfl⟩
  | some item' =>
    have hmem := hnext item' rfl
    have hne : (d.taken k).graphItem ≠ some item' := by
      intro hsame
      obtain rfl : current.item = item' := Option.some.inj (hitem.symm.trans hsame)
      obtain ⟨i, hik, hi⟩ := List.mem_eraseIdx_iff_getElem?.mp hmem
      rw [h.list, List.getElem?_map, Option.map_eq_some_iff] at hi
      obtain ⟨g, hg, hgitem⟩ := hi
      rw [← hgitem, h.indexOf hg] at hindex
      exact hik (Option.some.inj hindex)
    have hitem' : item' ∈ (d.taken k).items.map GraphItems.item := by
      rw [← hlist]
      exact hmem
    obtain ⟨j, hj⟩ := hmatched.mem_item_iff.mp hitem'
    obtain ⟨g, hg, rfl⟩ := indexOf_eq_some hj
    have hturned := hmatched.turned hg hne
    have haligned := hturned.aligned hmatched hg hlist
    rw [← haligned.current, haligned.readjust]
    exact Or.inr ⟨j, g, rfl, hg, hturned⟩

theorem Aligned.delete (h : d.Aligned) {next : Option ℕ}
    (hnext : ∀ item, next = some item → item ∈ d.manager.currentgraph.elim d.graphList d.graphList.eraseIdx) :
    (d.delete next).Aligned := by
  cases hk : d.manager.currentgraph with
  | none =>
    rw [Lists.delete, hk]
    exact h
  | some k =>
    rw [hk, Option.elim_some] at hnext
    obtain ⟨hmatched, hlist⟩ := h.taken k
    rcases h.delete_cases hk hnext with ⟨rfl, hdelete⟩ | ⟨j, g, -, hg, hturned⟩
    · rw [hdelete]
      refine ⟨⟨hmatched.counts, hmatched.nodup, hmatched.plots, hmatched.below⟩, hlist, ?_, rfl, ?_⟩
      · intro item hitem
        cases hitem
      · intro k g hk
        cases hk
    · exact hturned.aligned hmatched hg hlist

/-- A plot is edited in its place. -/
theorem Aligned.editPlot (h : d.Aligned) {item : ℕ} {form : Option PlotForm} (hd : d.editPlot item form = some d') :
    d'.Aligned := by
  unfold Lists.editPlot at hd
  split at hd
  · cases hd
    exact h
  · obtain ⟨row, -, rfl⟩ := Option.map_eq_some_iff.mp hd
    apply h.setManager
    cases form with
    | none => exact ⟨rfl, rfl⟩
    | some form => exact d.manager.modifyCurrent_counts fun g => List.length_modify ..

theorem step_aligned {e : Event} (h : d.Aligned) (hstep : d.step e = some d') : d'.Aligned := by
  cases e with
  | setGraphName text =>
    cases hstep
    exact h.setManager (d.manager.modifyCurrent_counts fun _ => rfl)
  | setPollInterval v =>
    obtain ⟨manager, hmanager, rfl⟩ := Option.map_eq_some_iff.mp hstep
    obtain ⟨-, rfl⟩ := Option.ite_some_none_eq_some.mp hmanager
    exact h.setManager (d.manager.setPollInterval_counts v)
  | add garbage =>
    cases hstep
    exact h.add garbage
  | delete next =>
    obtain ⟨hnext, rfl⟩ := Option.ite_some_none_eq_some.mp hstep
    apply h.delete
    rintro item rfl
    simpa using hnext
  | select item =>
    obtain ⟨hitem, rfl⟩ := Option.ite_some_none_eq_some.mp hstep
    exact h.setCurrentItem hitem
  | addPlot garbage form =>
    cases hstep
    exact h.addPlot garbage form
  | editPlot item form =>
    obtain ⟨-, hedit⟩ := Option.ite_none_right_eq_some.mp hstep
    exact h.editPlot hedit
  | selectPlot item =>
    obtain ⟨-, rfl⟩ := Option.ite_some_none_eq_some.mp hstep
    exact h.of_same ⟨h.counts, h.nodup, h.plots, h.below⟩ rfl rfl rfl rfl h.rows
  | deletePlot next =>
    obtain ⟨-, rfl⟩ := Option.ite_some_none_eq_some.mp hstep
    exact h.deletePlot next

/-! ## Loading -/

/-- Before the first selection the rows may be those of many graphs. -/
structure Loaded (d : Lists) (m : GraphManager) : Prop where
  aligned : d.Aligned
  manager : d.manager = m
  current : m.currentgraph = none
  graphItem : d.graphItem = none

theorem Loaded.newPlots {m : GraphManager} {graphs : List Graph} {name : String} {pollInterval : ℤ}
    {done : List Plot} (h : Loaded d { m with graphs := graphs ++ [⟨name, pollInterval, done⟩] }) (todo : List Plot) :
    Loaded (todo.foldl (fun d p => d.newPlot graphs.length p) d)
      { m with graphs := graphs ++ [⟨name, pollInterval, done ++ todo⟩] } := by
  induction todo generalizing d done with
  | nil => simpa using h
  | cons p todo ih =>
    have hnone : d.manager.currentgraph = none := by
      rw [h.manager]
      exact h.current
    have hnext : Loaded (d.newPlot graphs.length p)
        { m with graphs := graphs ++ [⟨name, pollInterval, done ++ [p]⟩] } := by
      refine ⟨h.aligned.newPlot ?_ p, ?_, h.current, h.graphItem⟩
      · intro k' hk'
        rw [hnone] at hk'
        cases hk'
      · simp only [Lists.newPlot, h.manager]
        rw [Live.modify_last]
    have hrest := ih hnext
    rw [List.append_assoc] at hrest
    exact hrest

theorem Loaded.readGraph {m : GraphManager} (h : Loaded d m) (g : Graph) :
    Loaded (d.readGraph g) { m with graphs := m.graphs ++ [g] } := by
  have hgrown : Loaded (d.newGraph g.name g.pollInterval)
      { m with graphs := m.graphs ++ [⟨g.name, g.pollInterval, []⟩] } := by
    refine ⟨h.aligned.newGraph g.name g.pollInterval, ?_, h.current, h.graphItem⟩
    simp only [Lists.newGraph, h.manager]
  have hlength : d.items.length = m.graphs.length := by
    rw [h.aligned.length, h.manager]
  have hplots := hgrown.newPlots g.plots
  rw [List.nil_append] at hplots
  rw [Lists.readGraph, hlength]
  exact hplots

theorem Loaded.readGraphs {m : GraphManager} (h : Loaded d m) (graphs : List Graph) :
    Loaded (graphs.foldl Lists.readGraph d) { m with graphs := m.graphs ++ graphs } := by
  induction graphs generalizing d m with
  | nil => simpa using h
  | cons g graphs ih =>
    have hrest := ih (h.readGraph g)
    simp only [List.append_assoc, List.singleton_append] at hrest
    exact hrest

/-- The first graph is selected, if there is one. -/
theorem Loaded.select {m : GraphManager} (h : Loaded d m) :
    (d.setCurrentItem d.graphList.head?).Aligned ∧
      (d.setCurrentItem d.graphList.head?).manager = m.selectedGraph 0 := by
  have hlist := h.aligned.list
  have hlength := h.aligned.length
  rw [h.manager] at hlength
  cases hitems : d.items with
  | nil =>
    have hhead : d.graphList.head? = none := by
      rw [hlist, hitems]
      rfl
    have hgraphs : m.graphs = [] := by
      rw [hitems] at hlength
      exact List.eq_nil_of_length_eq_zero hlength.symm
    rw [hhead, setCurrentItem, if_pos h.graphItem]
    refine ⟨h.aligned, ?_⟩
    rw [h.manager, GraphManager.selectedGraph, hgraphs]
    rfl
  | cons g items =>
    have hg : d.items[0]? = some g := by
      rw [hitems]
      rfl
    have hhead : d.graphList.head? = some g.item := by
      rw [hlist, hitems]
      rfl
    have hne : d.graphItem ≠ some g.item := by
      rw [h.graphItem]
      exact Option.some_ne_none _ ∘ Eq.symm
    have hturned := h.aligned.toMatched.turned hg hne
    rw [hhead, ← h.manager]
    exact ⟨hturned.aligned h.aligned.toMatched hg hlist, hturned.manager⟩

/-- What is loaded is what the manager starts with. -/
theorem load_spec (config : List Graph) : (load config).Aligned ∧ (load config).manager = GraphManager.start config := by
  have hempty : Loaded ⟨{ graphs := [], currentgraph := none, spin := 3, config := config }, [], [], none, [], none, 0⟩
      { graphs := [], currentgraph := none, spin := 3, config := config } := by
    refine ⟨⟨⟨rfl, List.nodup_nil, ?_, ?_⟩, rfl, ?_, rfl, ?_⟩, rfl, rfl, rfl⟩
    · intro g hg
      cases hg
    · intro g hg
      cases hg
    · intro item hitem
      cases hitem
    · intro k g hk
      cases hk
  have hread := hempty.readGraphs (readConfigFile config)
  rw [List.nil_append] at hread
  exact hread.select

/-- Main result: whenever a graph is current, the rows are the items of its plots; every row finds its
plot, and deleting the plot of the current row takes that row. -/
theorem rows_of_current {config : List Graph} {es : List Event} {k : ℕ}
    (h : Runs.exec step (load config) es = some d) (hk : d.manager.currentgraph = some k) :
    ∃ g, d.items[k]? = some g ∧ d.plotList = g.plots ∧
      (∀ i item, d.plotList[i]? = some item → d.findPlot item = some i) ∧
      ∀ item next, d.plotItem = some item → (d.deletePlot next).plotList = d.plotList.erase item ∧
        (d.deletePlot next).items[k]? = some { g with plots := g.plots.erase item } := by
  have haligned : d.Aligned := Runs.exec_invariant (fun _ _ _ => step_aligned) (load_spec config).1 h
  obtain ⟨item, -, hindex⟩ := Option.bind_eq_some_iff.mp (haligned.current.symm.trans hk)
  obtain ⟨g, hg, -⟩ := indexOf_eq_some hindex
  have hrows := haligned.rows k g hk hg
  have hnodup : d.plotList.Nodup := by
    rw [hrows]
    exact haligned.plots g (List.mem_of_getElem? hg)
  refine ⟨g, hg, hrows, fun i item => haligned.findPlot hk, ?_⟩
  intro item next hitem
  unfold Lists.deletePlot
  cases hi : d.findPlot item with
  | none =>
    have hno : item ∉ d.plotList := by
      intro hmem
      obtain ⟨i, hi'⟩ := List.mem_iff_getElem?.mp hmem
      rw [haligned.findPlot hk hi'] at hi
      cases hi
    simp only [hk, hitem, Option.bind_some, hi]
    rw [List.erase_of_not_mem hno, ← hrows, List.erase_of_not_mem hno, hrows]
    exact ⟨rfl, hg⟩
  | some i =>
    obtain ⟨hlt, hrow⟩ := List.getElem?_eq_some_iff.mp (haligned.getElem?_of_findPlot hi)
    have herase : d.plotList.eraseIdx i = d.plotList.erase item := by
      rw [← hrow]
      exact (hnodup.erase_getElem i hlt).symm
    simp only [hk, hitem, Option.bind_some, hi, List.getElem?_modify_eq, hg, Option.map_eq_map, Option.map_some]
    rw [← hrows, herase]
    exact ⟨rfl, rfl⟩

/-- A row of the list is the place of a plot of the current graph. -/
theorem Aligned.shows (h : d.Aligned) {k row : ℕ} (hk : d.manager.currentgraph = some k)
    (hrow : row < d.plotList.length) :
    (d.manager.currentgraph.all fun k => d.manager.graphs[k]?.any fun g => row < g.plots.length) = true := by
  obtain ⟨g, hg, -⟩ := h.currentGraph hk
  have hcount := congrArg (·[k]?) h.counts
  simp only [List.getElem?_map, hg, Option.map_some] at hcount
  obtain ⟨g', hg', hlength⟩ := Option.map_eq_some_iff.mp hcount.symm
  rw [h.rows k g hk hg] at hrow
  simp [hk, hg', hlength, hrow]

/-- Every step is a step of the manager that names graphs and plots by their places, or leaves it alone. -/
theorem step_refines {e : Event} (h : d.Aligned) (hstep : d.step e = some d') :
    d'.manager = d.manager ∨ ∃ e', d.manager.step e' = some d'.manager := by
  cases e with
  | setGraphName text =>
    cases hstep
    exact Or.inr ⟨.setGraphName text, rfl⟩
  | setPollInterval v =>
    obtain ⟨manager, hmanager, rfl⟩ := Option.map_eq_some_iff.mp hstep
    exact Or.inr ⟨.setPollInterval v, hmanager⟩
  | add garbage =>
    cases hstep
    have hg : (d.newGraph "newgraph" garbage).items[d.items.length]? = some ⟨d.fresh, []⟩ := by
      simp [Lists.newGraph]
    have hturned := (h.toMatched.newGraph "newgraph" garbage).turned hg h.graphItem_ne_fresh
    refine Or.inr ⟨.add garbage, congrArg (fun m => some (GraphManager.writeConfigFile m)) ?_⟩
    rw [hturned.manager, h.length]
    rfl
  | delete next =>
    obtain ⟨hnext, rfl⟩ := Option.ite_some_none_eq_some.mp hstep
    cases hk : d.manager.currentgraph with
    | none =>
      rw [Lists.delete, hk]
      exact Or.inl rfl
    | some k =>
      have hrows : ∀ item, next = some item → item ∈ d.graphList.eraseIdx k := by
        rintro item rfl
        simpa [hk] using hnext
      rcases h.delete_cases hk hrows with ⟨rfl, hdelete⟩ | ⟨j, g, -, hg, hturned⟩
      · refine Or.inr ⟨.delete none, ?_⟩
        rw [hdelete, GraphManager.step, GraphManager.delete, hk]
        rfl
      · obtain ⟨hmatched, hlist⟩ := h.taken k
        have hreadjust := (hturned.aligned hmatched hg hlist).readjust
        rw [hturned.current hmatched (List.getElem?_eq_some_iff.mp hg).1] at hreadjust
        refine Or.inr ⟨.delete (some j), ?_⟩
        rw [← hreadjust, hturned.manager, GraphManager.step, GraphManager.delete, hk]
        rfl
  | select item =>
    obtain ⟨hitem, rfl⟩ := Option.ite_some_none_eq_some.mp hstep
    by_cases hsame : d.graphItem = some item
    · rw [setCurrentItem, if_pos hsame]
      exact Or.inl rfl
    · rw [h.list, h.mem_item_iff] at hitem
      obtain ⟨i, hi⟩ := hitem
      obtain ⟨g, hg, rfl⟩ := indexOf_eq_some hi
      exact Or.inr ⟨.select i, congrArg some (h.toMatched.turned hg hsame).manager.symm⟩
  | addPlot garbage form =>
    cases hstep
    unfold Lists.addPlot
    split
    · rename_i k form hk
      exact Or.inr ⟨.addPlot garbage (some form), congrArg some (GraphManager.modifyCurrent_some hk _)⟩
    · exact Or.inl rfl
  | editPlot item form =>
    obtain ⟨hmem, hedit⟩ := Option.ite_none_right_eq_some.mp hstep
    unfold Lists.editPlot at hedit
    split at hedit
    · cases hedit
      exact Or.inl rfl
    · rename_i k hk
      obtain ⟨row, hrow, rfl⟩ := Option.map_eq_some_iff.mp hedit
      obtain ⟨hlt, -⟩ := List.getElem?_eq_some_iff.mp (h.getElem?_of_findPlot hrow)
      exact Or.inr ⟨.editPlot row form, if_pos (h.shows hk hlt)⟩
  | selectPlot item =>
    obtain ⟨-, rfl⟩ := Option.ite_some_none_eq_some.mp hstep
    exact Or.inl rfl
  | deletePlot next =>
    obtain ⟨-, rfl⟩ := Option.ite_some_none_eq_some.mp hstep
    unfold Lists.deletePlot
    split
    · rename_i k i hk hi
      exact Or.inr ⟨.deletePlot (some i), rfl⟩
    · exact Or.inl rfl

/-- The second graph of two is deleted behind a plot that was added to it. -/
theorem rows_of_current_twoGraphs :
    ∃ d, Runs.exec step (load GraphManager.oneGraph)
        [.add 3, .addPlot 0 (some ⟨"switch", some 1, 0, 0, 0, "1.3.6.1"⟩), .delete (some 0)] = some d ∧
      ∃ g, d.items[0]? = some g ∧ d.plotList = g.plots ∧
        (∀ i item, d.plotList[i]? = some item → d.findPlot item = some i) ∧
        ∀ item next, d.plotItem = some item → (d.deletePlot next).plotList = d.plotList.erase item ∧
          (d.deletePlot next).items[0]? = some { g with plots := g.plots.erase item } :=
  ⟨_, rfl, @rows_of_current _ GraphManager.oneGraph
    [.add 3, .addPlot 0 (some ⟨"switch", some 1, 0, 0, 0, "1.3.6.1"⟩), .delete (some 0)] 0 rfl rfl⟩

end Lists

end SnmpB.Graphs
