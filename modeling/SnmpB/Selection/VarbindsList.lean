import SnmpB.Library.ItemList
import SnmpB.Library.Shift

/-! # Deleting and moving varbinds

The selected varbinds of the list are deleted, or moved up or down by one place. They
are taken out and put back one at a time, so that every index is looked up in a list that
has already changed.
-/
namespace SnmpB.Selection
open Widget Shift

variable {ι : Type*} [DecidableEq ι]

structure VarbindsUi (ι : Type*) where
  varbindsList : ItemList ι
  /-- Whether the operations are enabled. -/
  snmpOps : Bool
  deriving DecidableEq

def deleteItems (items : List ι) (vbl : ItemList ι) : ItemList ι :=
  items.foldl (fun vbl item => (vbl.take (vbl.indexOf (some item))).2) vbl

/-- `none` where the last one of no selected items is read. -/
def varbindsDelete (vbui : VarbindsUi ι) : Option (VarbindsUi ι) :=
  let vbl := vbui.varbindsList
  let items := vbl.selected
  match items.getLast? with
  | none => none
  | some last =>
    let next := (vbl.itemBelow last).or (vbl.itemAbove last)
    let vbl := deleteItems items vbl
    let vbl := match next with
      | some next => vbl.setCurrent next
      | none => vbl
    some ⟨vbl, if vbl.items.length = 0 then false else vbui.snmpOps⟩

/-- Exactly the unselected varbinds are left, and one of them is current, or none is where none is left. -/
structure Deletes (vbl vbl' : ItemList ι) : Prop where
  items : vbl'.items = vbl.items.filter (· ∉ vbl.selected)
  current : (∃ x, vbl'.current = some x ∧ x ∈ vbl'.items) ∨ vbl'.current = none ∧ vbl'.items = []

/-- The item below the one that was selected last stays, or at the end of the list the item above it. -/
def Spared (vbl : ItemList ι) : Prop := ∀ pre last post, vbl.items = pre ++ last :: post →
  vbl.selected.getLast? = some last →
    (∀ below, post.head? = some below → below ∉ vbl.selected) ∧
      (post = [] → ∀ above, pre.getLast? = some above → above ∉ vbl.selected)

theorem items_deleteItems {vbl : ItemList ι} (h : vbl.items.Nodup) (items : List ι) :
    (deleteItems items vbl).items = vbl.items.filter (· ∉ items) := by
  have hdiff : (deleteItems items vbl).items = vbl.items.diff items := by
    rw [List.diff_eq_foldl, deleteItems]
    generalize vbl = vbl
    induction items generalizing vbl with
    | nil => rfl
    | cons item items ih => rw [List.foldl_cons, List.foldl_cons, ← ItemList.items_take_indexOf, ih]
  rw [hdiff, h.sdiff_eq_filter]

theorem deleteItems_currentIn {vbl : ItemList ι} (h : vbl.CurrentIn) (items : List ι) :
    (deleteItems items vbl).CurrentIn := by
  induction items generalizing vbl with
  | nil => exact h
  | cons item items ih => exact ih (h.take item)

omit [DecidableEq ι] in
theorem spared_iff {vbl : ItemList ι} {pre post : List ι} {last : ι} (h : vbl.items.Nodup)
    (hitems : vbl.items = pre ++ last :: post) (hlast : vbl.selected.getLast? = some last) :
    Spared vbl ↔ ∀ x, post.head?.or pre.getLast? = some x → x ∉ vbl.selected := by
  have hsplit : ∀ pre' last' post', vbl.items = pre' ++ last' :: post' → vbl.selected.getLast? = some last' →
      pre' = pre ∧ last' = last ∧ post' = post := by
    intro pre' last' post' hitems' hlast'
    obtain rfl : last = last' := Option.some_inj.mp (hlast.symm.trans hlast')
    have hpre : last ∉ pre := ItemList.not_mem_of_nodup h hitems
    have hpost : last ∉ post := (List.nodup_cons.mp (hitems ▸ h).of_append_right).1
    obtain ⟨hbefore, -, hbehind⟩ := (List.append_cons_inj_of_notMem hpre hpost).mp (hitems.symm.trans hitems')
    exact ⟨hbefore.symm, rfl, hbehind.symm⟩
  constructor
  · intro hspared x hx
    obtain ⟨hbelow, habove⟩ := hspared pre last post hitems hlast
    rcases Option.or_eq_some_iff.mp hx with hx | ⟨hnone, hx⟩
    · exact hbelow x hx
    · exact habove (List.head?_eq_none_iff.mp hnone) x hx
  · intro hspared pre' last' post' hitems' hlast'
    obtain ⟨rfl, rfl, rfl⟩ := hsplit pre' last' post' hitems' hlast'
    refine ⟨fun x hx => hspared x ?_, fun hnil x hx => hspared x ?_⟩
    · rw [hx, Option.some_or]
    · rw [hnil, List.head?_nil, Option.none_or, hx]

/-- Deleting the selection is right unless the item that is to become current goes with it. -/
theorem varbindsDelete_iff {vbui : VarbindsUi ι} (h : vbui.varbindsList.Sound)
    (hsome : vbui.varbindsList.selected ≠ []) :
    (∃ vbui', varbindsDelete vbui = some vbui' ∧ Deletes vbui.varbindsList vbui'.varbindsList) ↔
      Spared vbui.varbindsList := by
  obtain ⟨vbl, snmpOps⟩ := vbui
  change vbl.Sound at h
  change vbl.selected ≠ [] at hsome
  obtain ⟨last, hlast⟩ : ∃ last, vbl.selected.getLast? = some last :=
    ⟨_, List.getLast?_eq_some_getLast hsome⟩
  have hsel : last ∈ vbl.selected := List.mem_of_getLast? hlast
  obtain ⟨pre, post, hitems, hpre⟩ := List.eq_append_cons_of_mem (h.selected_subset hsel)
  have hleft := items_deleteItems h.nodup vbl.selected
  rw [varbindsDelete, spared_iff h.nodup hitems hlast]
  simp only [hlast, Option.some.injEq, exists_eq_left', ItemList.itemBelow_middle hpre hitems,
    ItemList.itemAbove_middle hpre hitems]
  cases hnext : post.head?.or pre.getLast? with
  | none =>
    -- the list has one item, and that is selected
    obtain ⟨hpost, hbefore⟩ := Option.or_eq_none_iff.mp hnext
    have hone : vbl.items = [last] := by
      rw [hitems, List.head?_eq_none_iff.mp hpost, List.getLast?_eq_none_iff.mp hbefore, List.nil_append]
    have hgone : (deleteItems vbl.selected vbl).items = [] := by
      rw [hleft, hone, List.filter_cons_of_neg (by simpa using hsel), List.filter_nil]
    refine iff_of_true ⟨hleft, Or.inr ⟨?_, hgone⟩⟩ fun x hx => nomatch hx
    cases hcurrent : (deleteItems vbl.selected vbl).current with
    | none => rfl
    | some x =>
      have hx := deleteItems_currentIn h.currentIn vbl.selected x hcurrent
      rw [hgone] at hx
      cases hx
  | some next =>
    have hmem : next ∈ vbl.items := by
      rw [hitems, List.mem_append, List.mem_cons]
      rcases Option.or_eq_some_iff.mp hnext with hbelow | ⟨-, habove⟩
      · exact Or.inr (Or.inr (List.mem_of_head? hbelow))
      · exact Or.inl (List.mem_of_getLast? habove)
    have hstays : next ∈ (deleteItems vbl.selected vbl).items ↔ next ∉ vbl.selected := by
      rw [hleft, List.mem_filter, decide_eq_true_eq]
      exact and_iff_right hmem
    constructor
    · rintro ⟨-, ⟨x, hx, hxmem⟩ | ⟨hnone, -⟩⟩ y hy
      · obtain rfl := Option.some_inj.mp hx
        obtain rfl := Option.some_inj.mp hy
        exact hstays.mp hxmem
      · cases hnone
    · intro hspared
      exact ⟨hleft, Or.inl ⟨next, rfl, hstays.mpr (hspared next rfl)⟩⟩

theorem varbindsDelete_two : ∃ vbui', varbindsDelete (⟨⟨[1, 2, 3, 4], [4, 2], some 2⟩, true⟩ : VarbindsUi ℕ) = some vbui' ∧
    Deletes ⟨[1, 2, 3, 4], [4, 2], some 2⟩ vbui'.varbindsList := by
  refine (varbindsDelete_iff ?_ (List.cons_ne_nil _ _)).mpr ?_
  · exact ⟨by decide, by decide, by decide, by simp [ItemList.CurrentIn]⟩
  · have hitems : (⟨[1, 2, 3, 4], [4, 2], some 2⟩ : ItemList ℕ).items = [1] ++ 2 :: [3, 4] := rfl
    exact (spared_iff (by decide) hitems rfl).mpr (by simp)

/-- With both varbinds of a list selected, one that is deleted is made current. -/
theorem varbindsDelete_both : (⟨[1, 2], [1, 2], some 2⟩ : ItemList ℕ).Sound ∧
    varbindsDelete (⟨⟨[1, 2], [1, 2], some 2⟩, true⟩ : VarbindsUi ℕ) = some ⟨⟨[], [1], some 1⟩, false⟩ ∧
    ¬∃ vbui', varbindsDelete (⟨⟨[1, 2], [1, 2], some 2⟩, true⟩ : VarbindsUi ℕ) = some vbui' ∧
      Deletes ⟨[1, 2], [1, 2], some 2⟩ vbui'.varbindsList := by
  have hresult : varbindsDelete (⟨⟨[1, 2], [1, 2], some 2⟩, true⟩ : VarbindsUi ℕ) =
      some ⟨⟨[], [1], some 1⟩, false⟩ := by decide
  refine ⟨⟨by decide, by decide, by decide, by simp [ItemList.CurrentIn]⟩, hresult, ?_⟩
  rintro ⟨vbui', heq, -, hcurrent⟩
  obtain rfl := Option.some_inj.mp (hresult.symm.trans heq)
  simp at hcurrent

def compareItemPositions (vbl : ItemList ι) (i1 i2 : ι) : Prop := vbl.indexOf (some i1) ≤ vbl.indexOf (some i2)

instance (vbl : ItemList ι) : DecidableRel (compareItemPositions vbl) :=
  fun _ _ => inferInstanceAs (Decidable (_ ≤ _))

instance (vbl : ItemList ι) : Std.Total (compareItemPositions vbl) := ⟨fun _ _ => le_total _ _⟩

instance (vbl : ItemList ι) : IsTrans ι (compareItemPositions vbl) := ⟨fun _ _ _ => le_trans⟩

/-- `selectedItems` after `qSort`. -/
def sortedSelection (vbl : ItemList ι) : List ι := vbl.selected.insertionSort (compareItemPositions vbl)

/-- The loop of both moves over what is left of `items`: where the index of the item next to one is
admitted, the one is put there. -/
def moveLoop (next : ItemList ι → ι → Option ι) (admitted : ℤ → Bool) : List ι → Bool → ItemList ι → ItemList ι
  | [], _, vbl => vbl
  | item :: items, cleared, vbl =>
    let idx := vbl.indexOf (some item)
    let nextidx := vbl.indexOf (next vbl item)
    if admitted nextidx then
      let vbl := if cleared then vbl else vbl.clearSelection
      match vbl.take idx with
      | (some item, vbl) => moveLoop next admitted items true ((vbl.insert nextidx item).select item)
      -- there is no item at the index of an item
      | (none, vbl) => vbl
    else vbl

def varbindsMoveUp (vbl : ItemList ι) : ItemList ι :=
  moveLoop ItemList.itemAbove (fun previdx => previdx ≥ 0) (sortedSelection vbl) false vbl

def varbindsMoveDown (vbl : ItemList ι) : ItemList ι :=
  moveLoop ItemList.itemBelow (fun nextidx => nextidx > 0) (sortedSelection vbl).reverse false vbl

example : varbindsMoveUp (⟨[1, 2, 3, 4], [4, 2], none⟩ : ItemList ℕ) = ⟨[2, 1, 4, 3], [2, 4], none⟩ := by decide

/-- The selected items, as marks. -/
def marks (vbl : ItemList ι) (x : ι) : Bool := x ∈ vbl.selected

theorem filter_marks_perm {vbl : ItemList ι} (h : vbl.Sound) : (vbl.items.filter (marks vbl)).Perm vbl.selected := by
  rw [List.perm_ext_iff_of_nodup (h.nodup.filter _) h.nodup_selected]
  intro x
  rw [List.mem_filter, marks, decide_eq_true_eq]
  exact ⟨fun hx => hx.2, fun hx => ⟨h.selected_subset hx, hx⟩⟩

/-- The sorted selection stands in the order of the list. -/
theorem sortedSelection_eq {vbl : ItemList ι} (h : vbl.Sound) :
    sortedSelection vbl = vbl.items.filter (marks vbl) := by
  have hperm : (sortedSelection vbl).Perm (vbl.items.filter (marks vbl)) :=
    (List.perm_insertionSort _ _).trans (filter_marks_perm h).symm
  have hitems : vbl.items.Pairwise (compareItemPositions vbl) := by
    rw [List.pairwise_iff_getElem]
    intro i j hi hj hij
    rw [compareItemPositions, ItemList.indexOf_of_mem (List.getElem_mem hi), ItemList.indexOf_of_mem (List.getElem_mem hj),
      h.nodup.idxOf_getElem, h.nodup.idxOf_getElem]
    exact Int.ofNat_le.mpr hij.le
  refine hperm.eq_of_pairwise ?_ (List.pairwise_insertionSort _ _) (hitems.sublist List.filter_sublist)
  intro x y hx hy hxy hyx
  have hx : x ∈ vbl.items := List.mem_of_mem_filter (hperm.mem_iff.mp hx)
  have hy : y ∈ vbl.items := List.mem_of_mem_filter hy
  have hindex := le_antisymm hxy hyx
  rw [ItemList.indexOf_of_mem hx, ItemList.indexOf_of_mem hy] at hindex
  exact (List.idxOf_inj hx).mp (Int.ofNat_inj.mp hindex)

/-- Where an item stands behind another one as `lay` puts the list, the two change places. -/
structure Exchanges (next : ItemList ι → ι → Option ι) (admitted : ℤ → Bool) (lay : List ι → List ι) :
    Prop where
  lay_perm : ∀ items, (lay items).Perm items
  lay_lay : ∀ items, lay (lay items) = items
  edge : ∀ (vbl : ItemList ι) (x : ι) (rest : List ι), vbl.items.Nodup → lay vbl.items = x :: rest →
    admitted (vbl.indexOf (next vbl x)) = false
  next_clearSelection : ∀ vbl x, next vbl.clearSelection x = next vbl x
  exchange : ∀ (vbl : ItemList ι) (ahead : List ι) (u x : ι) (rest : List ι), vbl.items.Nodup →
    vbl.items = lay (ahead ++ u :: x :: rest) →
      admitted (vbl.indexOf (next vbl x)) = true ∧ ∃ vbl', vbl.take (vbl.indexOf (some x)) = (some x, vbl') ∧
        (vbl'.insert (vbl.indexOf (next vbl x)) x).items = lay (ahead ++ x :: u :: rest) ∧
        vbl'.selected = vbl.selected.erase x

theorem exchanges_above : @Exchanges ι _ ItemList.itemAbove (fun previdx => previdx ≥ 0) id where
  lay_perm _ := List.Perm.refl _
  lay_lay _ := rfl
  edge vbl x rest _ hitems := by
    rw [ItemList.itemAbove_middle List.not_mem_nil hitems]
    rfl
  next_clearSelection _ _ := rfl
  exchange vbl ahead u x rest hnodup hitems := by
    obtain ⟨hindex, vbl', htake, hinsert, hselected⟩ := ItemList.insert_take_above hnodup hitems
    rw [hindex]
    exact ⟨decide_eq_true (Int.natCast_nonneg _), vbl', htake, hinsert, hselected⟩

theorem exchanges_below : @Exchanges ι _ ItemList.itemBelow (fun nextidx => nextidx > 0) List.reverse where
  lay_perm := List.reverse_perm
  lay_lay := List.reverse_reverse
  edge vbl x rest hnodup hitems := by
    have hsplit : vbl.items = rest.reverse ++ [x] := by
      rw [← List.reverse_reverse vbl.items, hitems, List.reverse_cons]
    have hx : x ∉ rest.reverse := ItemList.not_mem_of_nodup hnodup hsplit
    rw [ItemList.itemBelow_middle hx hsplit]
    rfl
  next_clearSelection _ _ := rfl
  exchange vbl ahead u x rest hnodup hitems := by
    have hlist : ∀ a b : ι, (ahead ++ a :: b :: rest).reverse = rest.reverse ++ b :: a :: ahead.reverse := by
      simp
    rw [hlist] at hitems ⊢
    obtain ⟨hindex, vbl', htake, hinsert, hselected⟩ := ItemList.insert_take_below hnodup hitems
    rw [hindex]
    exact ⟨decide_eq_true (by omega), vbl', htake, hinsert, hselected⟩

section
variable {next : ItemList ι → ι → Option ι} {admitted : ℤ → Bool} {lay : List ι → List ι} {S : ι → Bool}

/-- One turn of the loop. -/
theorem moveLoop_cons (h : Exchanges next admitted lay) {u x : ι} {rest ahead : List ι} {cleared : Bool}
    {vbl : ItemList ι} (hnodup : vbl.items.Nodup) (hitems : vbl.items = lay (ahead ++ u :: x :: rest))
    (hx : cleared = true → x ∉ vbl.selected) : ∃ vbl' : ItemList ι,
      (∀ items, moveLoop next admitted (x :: items) cleared vbl = moveLoop next admitted items true vbl') ∧
        vbl'.items = lay (ahead ++ x :: u :: rest) ∧
        vbl'.selected = (if cleared then vbl.selected else []) ++ [x] := by
  let vbl₀ := if cleared then vbl else vbl.clearSelection
  have hsame : vbl₀.items = vbl.items ∧ vbl₀.indexOf = vbl.indexOf ∧ next vbl₀ x = next vbl x ∧
      vbl₀.selected = if cleared then vbl.selected else [] := by
    cases cleared with
    | true => exact ⟨rfl, rfl, rfl, rfl⟩
    | false => exact ⟨rfl, rfl, h.next_clearSelection vbl x, rfl⟩
  obtain ⟨hsameitems, hindex, hnext, hselected⟩ := hsame
  have hfree : x ∉ vbl₀.selected := by
    rw [hselected]
    split
    · next hcleared => exact hx hcleared
    · exact List.not_mem_nil
  obtain ⟨hadmitted, vbl', htake, hinsert, herase⟩ :=
    h.exchange vbl₀ ahead u x rest (hsameitems ▸ hnodup) (hsameitems.trans hitems)
  rw [hindex, hnext] at hadmitted hinsert
  rw [hindex] at htake
  refine ⟨(vbl'.insert (vbl.indexOf (next vbl x)) x).select x, fun items => ?_, ?_, ?_⟩
  · rw [moveLoop, if_pos hadmitted]
    change (match vbl₀.take (vbl.indexOf (some x)) with
      | (some item, vbl) => _
      | (none, vbl) => vbl) = _
    rw [htake]
  · rw [ItemList.items_select, hinsert]
  · rw [ItemList.selected_select, ItemList.selected_insert, herase, List.erase_of_not_mem hfree, if_neg hfree,
      hselected]

/-- The induction is on what is left of the list, with `u` the last item that is not selected. -/
theorem moveLoop_past (h : Exchanges next admitted lay) {u : ι} (hu : S u = false)
    (rest : List ι) {ahead : List ι} {cleared : Bool} {vbl : ItemList ι} (hnodup : vbl.items.Nodup)
    (hitems : vbl.items = lay (ahead ++ u :: rest)) (hcleared : cleared = true → ∀ x ∈ vbl.selected, x ∉ rest) :
    (moveLoop next admitted (rest.filter S) cleared vbl).items = lay (ahead ++ past S u rest) ∧
      (moveLoop next admitted (rest.filter S) cleared vbl).selected =
        if rest.filter S = [] then vbl.selected
        else (if cleared then vbl.selected else []) ++ rest.filter S := by
  induction rest generalizing u ahead cleared vbl with
  | nil => exact ⟨hitems, rfl⟩
  | cons x rest ih =>
    cases hx : S x with
    | true =>
      obtain ⟨vbl', hloop, hitems', hselected⟩ := moveLoop_cons h hnodup hitems
        fun hc hmem => hcleared hc x hmem List.mem_cons_self
      have hperm : vbl'.items.Perm vbl.items := by
        rw [hitems, hitems']
        exact (h.lay_perm _).trans (((List.Perm.swap u x rest).append_left ahead).trans (h.lay_perm _).symm)
      have hxrest : x ∉ rest := by
        have hahead := ((h.lay_perm _).nodup_iff.mp (hitems ▸ hnodup)).of_append_right
        exact (List.nodup_cons.mp (List.nodup_cons.mp hahead).2).1
      have hfresh : ∀ y ∈ vbl'.selected, y ∉ rest := by
        intro y hy hmem
        rw [hselected, List.mem_append, List.mem_singleton] at hy
        rcases hy with hbefore | rfl
        · cases cleared with
          | true => exact hcleared rfl y hbefore (List.mem_cons_of_mem x hmem)
          | false => cases hbefore
        · exact hxrest hmem
      rw [List.append_cons] at hitems'
      rw [List.filter_cons_of_pos hx, hloop, past_marked hx, List.append_cons, if_neg (List.cons_ne_nil _ _)]
      obtain ⟨hrest, hrestsel⟩ := ih hu (hperm.nodup_iff.mpr hnodup) hitems' fun _ => hfresh
      refine ⟨hrest, ?_⟩
      rw [hrestsel, hselected]
      split
      · next hnil => rw [hnil]
      · rw [if_pos rfl, List.append_assoc, List.singleton_append]
    | false =>
      rw [List.filter_cons_of_neg (by simp [hx]), past_unmarked hx, List.append_cons]
      exact ih hx hnodup (by rw [hitems, ← List.append_cons])
        fun hc y hy hmem => hcleared hc y hy (List.mem_cons_of_mem x hmem)

/-- What the loop does from the first item on, as `lay` puts the list. -/
theorem moveLoop_spec (h : Exchanges next admitted lay) {vbl : ItemList ι} (hnodup : vbl.items.Nodup) :
    (¬Free S (lay vbl.items) → moveLoop next admitted ((lay vbl.items).filter S) false vbl = vbl) ∧
      (Free S (lay vbl.items) → (lay vbl.items).filter S ≠ [] →
        (moveLoop next admitted ((lay vbl.items).filter S) false vbl).items = lay (forward S (lay vbl.items)) ∧
        (moveLoop next admitted ((lay vbl.items).filter S) false vbl).selected = (lay vbl.items).filter S) := by
  cases hlaid : lay vbl.items with
  | nil => exact ⟨fun _ => rfl, fun _ hne => absurd rfl hne⟩
  | cons u rest =>
    constructor
    · intro hblocked
      have hu : S u = true := by
        by_contra hu
        exact hblocked (free_cons (Bool.not_eq_true _ ▸ hu) rest)
      rw [List.filter_cons_of_pos hu, moveLoop, h.edge vbl u rest hnodup hlaid]
      rfl
    · intro hfree hne
      have hu : S u = false := hfree u rfl
      have hfilter : (u :: rest).filter S = rest.filter S := List.filter_cons_of_neg (by simp [hu])
      have hitems : vbl.items = lay ([] ++ u :: rest) := by rw [List.nil_append, ← hlaid, h.lay_lay]
      rw [hfilter] at hne ⊢
      obtain ⟨hresult, hselected⟩ := moveLoop_past h hu rest hnodup hitems (fun hc : false = true => absurd hc Bool.false_ne_true)
      rw [if_neg hne] at hselected
      rw [forward, if_neg (by simp [hu])]
      exact ⟨hresult, hselected⟩

/-- Nothing is selected, or the item at the edge the selected ones move to is. -/
def Blocked (vbl : ItemList ι) (edge : Option ι) : Prop := vbl.selected = [] ∨ ∃ x, edge = some x ∧ x ∈ vbl.selected

theorem free_marks_iff {vbl : ItemList ι} {items : List ι} :
    Free (marks vbl) items ↔ ¬∃ x, items.head? = some x ∧ x ∈ vbl.selected := by
  unfold Free marks
  simp only [decide_eq_false_iff_not, not_exists, not_and]

theorem moveLoop_blocked (h : Exchanges next admitted lay) {vbl : ItemList ι} (hvbl : vbl.Sound)
    (hblocked : Blocked vbl (lay vbl.items).head?) :
    moveLoop next admitted ((lay vbl.items).filter (marks vbl)) false vbl = vbl := by
  rcases hblocked with hnone | hedge
  · have hnil : (lay vbl.items).filter (marks vbl) = [] := by
      have hperm := ((h.lay_perm vbl.items).filter (marks vbl)).trans (filter_marks_perm hvbl)
      exact List.perm_nil.mp (hnone ▸ hperm)
    rw [hnil]
    rfl
  · exact (moveLoop_spec h hvbl.nodup).1 fun hfree => free_marks_iff.mp hfree hedge

theorem moveLoop_free (h : Exchanges next admitted lay) {vbl : ItemList ι} (hvbl : vbl.Sound)
    (hfree : ¬Blocked vbl (lay vbl.items).head?) :
    Free (marks vbl) (lay vbl.items) ∧
      (moveLoop next admitted ((lay vbl.items).filter (marks vbl)) false vbl).items =
        lay (forward (marks vbl) (lay vbl.items)) ∧
      (moveLoop next admitted ((lay vbl.items).filter (marks vbl)) false vbl).selected =
        (lay vbl.items).filter (marks vbl) := by
  obtain ⟨hsome, hedge⟩ := not_or.mp hfree
  have hfree := free_marks_iff.mpr hedge
  refine ⟨hfree, (moveLoop_spec h hvbl.nodup).2 hfree fun hnil => hsome ?_⟩
  have hperm := ((h.lay_perm vbl.items).filter (marks vbl)).trans (filter_marks_perm hvbl)
  exact List.nil_perm.mp (hnil ▸ hperm)

end

section
variable {vbl : ItemList ι}

theorem varbindsMoveUp_eq (h : vbl.Sound) : varbindsMoveUp vbl =
    moveLoop ItemList.itemAbove (fun previdx => previdx ≥ 0) ((id vbl.items).filter (marks vbl)) false vbl := by
  rw [varbindsMoveUp, sortedSelection_eq h, id]

theorem varbindsMoveDown_eq (h : vbl.Sound) : varbindsMoveDown vbl =
    moveLoop ItemList.itemBelow (fun nextidx => nextidx > 0) (vbl.items.reverse.filter (marks vbl)) false vbl := by
  rw [varbindsMoveDown, sortedSelection_eq h, List.filter_reverse]

theorem varbindsMoveUp_free (h : vbl.Sound) (hfree : ¬Blocked vbl vbl.items.head?) :
    Free (marks vbl) vbl.items ∧ (varbindsMoveUp vbl).items = forward (marks vbl) vbl.items ∧
      (varbindsMoveUp vbl).selected = vbl.items.filter (marks vbl) := by
  rw [varbindsMoveUp_eq h]
  exact moveLoop_free exchanges_above h hfree

theorem varbindsMoveDown_free (h : vbl.Sound) (hfree : ¬Blocked vbl vbl.items.getLast?) :
    Free (marks vbl) vbl.items.reverse ∧ (varbindsMoveDown vbl).items = backward (marks vbl) vbl.items ∧
      (varbindsMoveDown vbl).selected = vbl.items.reverse.filter (marks vbl) := by
  rw [varbindsMoveDown_eq h]
  rw [← List.head?_reverse] at hfree
  exact moveLoop_free exchanges_below h hfree

/-- The same items with the same selection, the selected and the unselected ones each in their order. -/
structure Rearranged (vbl vbl' : ItemList ι) : Prop where
  items : vbl'.items.Perm vbl.items
  selection : vbl'.selected.Perm vbl.selected
  selected_order : vbl'.items.filter (· ∈ vbl.selected) = vbl.items.filter (· ∈ vbl.selected)
  unselected_order : vbl'.items.filter (· ∉ vbl.selected) = vbl.items.filter (· ∉ vbl.selected)

/-- The loop leaves no pointer to an item outside the list. -/
theorem moveLoop_currentIn (next : ItemList ι → ι → Option ι) (admitted : ℤ → Bool) (items : List ι)
    (cleared : Bool) (h : vbl.CurrentIn) : (moveLoop next admitted items cleared vbl).CurrentIn := by
  induction items generalizing cleared vbl with
  | nil => exact h
  | cons item items ih =>
    rw [moveLoop]
    dsimp only
    split
    · have hcleared : (if cleared then vbl else vbl.clearSelection).CurrentIn := by
        cases cleared <;> exact h
      have htake := hcleared.take item
      have hindex : (if cleared then vbl else vbl.clearSelection).indexOf = vbl.indexOf := by
        cases cleared <;> rfl
      rw [hindex] at htake
      split
      · next taken vbl' heq =>
        rw [heq] at htake
        exact ih true ((htake.insert _ _).select _)
      · next heq =>
        rw [heq] at htake
        exact htake
    · exact h

theorem marks_eq {vbl' : ItemList ι} (h : vbl'.selected.Perm vbl.selected) : marks vbl' = marks vbl := by
  funext x
  exact decide_eq_decide.mpr h.mem_iff

theorem Rearranged.refl (vbl : ItemList ι) : Rearranged vbl vbl :=
  ⟨List.Perm.refl _, List.Perm.refl _, rfl, rfl⟩

theorem Rearranged.sound {vbl' : ItemList ι} (hmoved : Rearranged vbl vbl') (h : vbl.Sound) (hcurrent : vbl'.CurrentIn) :
    vbl'.Sound where
  nodup := hmoved.items.nodup_iff.mpr h.nodup
  nodup_selected := hmoved.selection.nodup_iff.mpr h.nodup_selected
  selected_subset _ hx := hmoved.items.mem_iff.mpr (h.selected_subset (hmoved.selection.mem_iff.mp hx))
  currentIn := hcurrent

theorem rearranged_of_filter {vbl' : ItemList ι} (hitems : vbl'.items.Perm vbl.items)
    (hselected : vbl'.selected.Perm vbl.selected)
    (hfilter : vbl'.items.filter (marks vbl) = vbl.items.filter (marks vbl) ∧
      vbl'.items.filter (fun x => ! marks vbl x) = vbl.items.filter (fun x => ! marks vbl x)) :
    Rearranged vbl vbl' := by
  refine ⟨hitems, hselected, hfilter.1, ?_⟩
  simpa only [marks, ← decide_not] using hfilter.2

theorem varbindsMoveUp_blocked (h : vbl.Sound) (hblocked : Blocked vbl vbl.items.head?) : varbindsMoveUp vbl = vbl := by
  rw [varbindsMoveUp_eq h]
  exact moveLoop_blocked exchanges_above h hblocked

theorem varbindsMoveDown_blocked (h : vbl.Sound) (hblocked : Blocked vbl vbl.items.getLast?) :
    varbindsMoveDown vbl = vbl := by
  rw [← List.head?_reverse] at hblocked
  rw [varbindsMoveDown_eq h]
  exact moveLoop_blocked exchanges_below h hblocked

theorem varbindsMoveUp_rearranged (h : vbl.Sound) : Rearranged vbl (varbindsMoveUp vbl) := by
  by_cases hblocked : Blocked vbl vbl.items.head?
  · rw [varbindsMoveUp_blocked h hblocked]
    exact Rearranged.refl vbl
  · obtain ⟨-, hitems, hselected⟩ := varbindsMoveUp_free h hblocked
    exact rearranged_of_filter (hitems ▸ forward_perm _) (hselected ▸ filter_marks_perm h) (hitems ▸ filter_forward _)

theorem varbindsMoveDown_rearranged (h : vbl.Sound) : Rearranged vbl (varbindsMoveDown vbl) := by
  by_cases hblocked : Blocked vbl vbl.items.getLast?
  · rw [varbindsMoveDown_blocked h hblocked]
    exact Rearranged.refl vbl
  · obtain ⟨-, hitems, hselected⟩ := varbindsMoveDown_free h hblocked
    have hperm := ((List.reverse_perm vbl.items).filter (marks vbl)).trans (filter_marks_perm h)
    exact rearranged_of_filter (hitems ▸ backward_perm _) (hselected ▸ hperm) (hitems ▸ filter_backward _)

theorem varbindsMoveUp_sound (h : vbl.Sound) : (varbindsMoveUp vbl).Sound :=
  (varbindsMoveUp_rearranged h).sound h (moveLoop_currentIn _ _ _ _ h.currentIn)

theorem varbindsMoveDown_sound (h : vbl.Sound) : (varbindsMoveDown vbl).Sound :=
  (varbindsMoveDown_rearranged h).sound h (moveLoop_currentIn _ _ _ _ h.currentIn)

/-- A rearranged list is blocked by the items that are marked before. -/
theorem not_blocked_of_free {vbl' : ItemList ι} (hmoved : Rearranged vbl vbl') (hsome : vbl.selected ≠ [])
    {items : List ι} (hfree : Free (marks vbl) items) : ¬Blocked vbl' items.head? := by
  refine not_or.mpr ⟨fun hnil => hsome ?_, ?_⟩
  · exact List.nil_perm.mp (hnil ▸ hmoved.selection)
  · rw [← free_marks_iff, marks_eq hmoved.selection]
    exact hfree

theorem varbindsMoveDown_varbindsMoveUp (h : vbl.Sound) (hfree : ¬Blocked vbl vbl.items.head?) :
    (varbindsMoveDown (varbindsMoveUp vbl)).items = vbl.items := by
  have hmoved := varbindsMoveUp_rearranged h
  obtain ⟨hfront, hitems, -⟩ := varbindsMoveUp_free h hfree
  obtain ⟨hback, hundo⟩ := backward_forward hfront
  have hblocked := not_blocked_of_free hmoved (not_or.mp hfree).1 hback
  rw [← hitems, List.head?_reverse] at hblocked
  rw [(varbindsMoveDown_free (varbindsMoveUp_sound h) hblocked).2.1, marks_eq hmoved.selection, hitems, hundo]

theorem varbindsMoveUp_varbindsMoveDown (h : vbl.Sound) (hfree : ¬Blocked vbl vbl.items.getLast?) :
    (varbindsMoveUp (varbindsMoveDown vbl)).items = vbl.items := by
  have hmoved := varbindsMoveDown_rearranged h
  obtain ⟨hback, hitems, -⟩ := varbindsMoveDown_free h hfree
  obtain ⟨hfront, hundo⟩ := forward_backward hback
  have hblocked := not_blocked_of_free hmoved (not_or.mp hfree).1 hfront
  rw [← hitems] at hblocked
  rw [(varbindsMoveUp_free (varbindsMoveDown_sound h) hblocked).2.1, marks_eq hmoved.selection, hitems, hundo]

/-- A move keeps the selection and both orders. Unless it is blocked, and then nothing moves, every selected
item moves by one place, and the other move undoes it. -/
theorem varbindsMove_spec (h : vbl.Sound) :
    (Rearranged vbl (varbindsMoveUp vbl) ∧ (Blocked vbl vbl.items.head? → varbindsMoveUp vbl = vbl) ∧
      (¬Blocked vbl vbl.items.head? →
        (∀ x ∈ vbl.selected, (varbindsMoveUp vbl).items.idxOf x + 1 = vbl.items.idxOf x) ∧
        (varbindsMoveDown (varbindsMoveUp vbl)).items = vbl.items ∧
        (varbindsMoveDown (varbindsMoveUp vbl)).selected.Perm vbl.selected)) ∧
    (Rearranged vbl (varbindsMoveDown vbl) ∧ (Blocked vbl vbl.items.getLast? → varbindsMoveDown vbl = vbl) ∧
      (¬Blocked vbl vbl.items.getLast? →
        (∀ x ∈ vbl.selected, (varbindsMoveDown vbl).items.idxOf x = vbl.items.idxOf x + 1) ∧
        (varbindsMoveUp (varbindsMoveDown vbl)).items = vbl.items ∧
        (varbindsMoveUp (varbindsMoveDown vbl)).selected.Perm vbl.selected)) := by
  have hmark : ∀ x ∈ vbl.selected, marks vbl x = true := fun x hx => decide_eq_true hx
  have hup := varbindsMoveUp_rearranged h
  have hdown := varbindsMoveDown_rearranged h
  refine ⟨⟨hup, varbindsMoveUp_blocked h, fun hfree => ⟨fun x hx => ?_, ?_, ?_⟩⟩,
    ⟨hdown, varbindsMoveDown_blocked h, fun hfree => ⟨fun x hx => ?_, ?_, ?_⟩⟩⟩
  · obtain ⟨hfront, hitems, -⟩ := varbindsMoveUp_free h hfree
    rw [hitems]
    exact idxOf_forward hfront (hmark x hx) (h.selected_subset hx)
  · exact varbindsMoveDown_varbindsMoveUp h hfree
  · exact (varbindsMoveDown_rearranged (varbindsMoveUp_sound h)).selection.trans hup.selection
  · obtain ⟨hback, hitems, -⟩ := varbindsMoveDown_free h hfree
    rw [hitems]
    exact idxOf_backward hback (hmark x hx) (h.selected_subset hx)
  · exact varbindsMoveUp_varbindsMoveDown h hfree
  · exact (varbindsMoveUp_rearranged (varbindsMoveDown_sound h)).selection.trans hdown.selection

end

/-- Two blocks of selected varbinds, selected in some order, go up past one varbind each and back. -/
theorem varbindsMove_blocks :
    (varbindsMoveUp (⟨[1, 2, 3, 4, 5, 6], [5, 2, 4], some 5⟩ : ItemList ℕ)).items = [2, 1, 4, 5, 3, 6] ∧
      (varbindsMoveDown (varbindsMoveUp (⟨[1, 2, 3, 4, 5, 6], [5, 2, 4], some 5⟩ : ItemList ℕ))).items =
        [1, 2, 3, 4, 5, 6] := by
  have hsound : (⟨[1, 2, 3, 4, 5, 6], [5, 2, 4], some 5⟩ : ItemList ℕ).Sound :=
    ⟨by decide, by decide, by decide, by simp [ItemList.CurrentIn]⟩
  have hfree : ¬Blocked (⟨[1, 2, 3, 4, 5, 6], [5, 2, 4], some 5⟩ : ItemList ℕ) (some 1) := by simp [Blocked]
  exact ⟨by decide, ((varbindsMove_spec hsound).1.2.2 hfree).2.1⟩

end SnmpB.Selection
