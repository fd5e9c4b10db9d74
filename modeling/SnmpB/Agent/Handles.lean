import SnmpB.Library.Epoch
import SnmpB.Agent.Session

/-! # The library handles of the callbacks

Refreshing the MIB modules shuts the library down and starts it again, so that
every node and type obtained before is gone. A callback looks its node up again
behind each module it loads; here it is run with the epoch of the library and
the dereferences it makes.
-/
namespace SnmpB.Agent
open Mib Epoch

/-- How often the library was started, and the dereferences so far. -/
structure Handles where
  epoch : ℕ
  derefs : List Deref

namespace Handles

/-- Following a handle that was obtained in the given epoch. -/
def deref (t : Handles) (obtained : ℕ) : Handles :=
  { t with derefs := t.derefs ++ [⟨obtained, t.epoch⟩] }

/-- `LoadBestModule`: a module that is loaded refreshes twice, once from within `Save`. -/
def loadOr (t : Handles) (mib : MibState) (text : String) (next : MibState → Handles → Handles) : Handles :=
  let loaded := mib.loadBestModule text
  if loaded.1 ≠ "" then { t with epoch := t.epoch + 2 } else next loaded.2 t

end Handles

def nodeRestartHandles (vb : Vb) (mib : MibState) (t : Handles) : Handles :=
  match getNodeFromOid mib.handle vb.oid with
  | none => t.loadOr mib vb.oid.getPrintable fun _ t => t
  | some node =>
    let obtained := t.epoch
    let f := Oid.restOf (Oid.dotted node.oid) (Oid.dotted vb.oid)
    let value (mib : MibState) (t : Handles) : Handles :=
      -- `smiGetNodeType(node)`, and the node once more where it is printed
      let t := t.deref obtained
      if isOidType node then t.loadOr mib vb.getOidValue.getPrintable fun _ t => t.deref obtained
      else t.deref obtained
    -- `smiRenderOID(node->oidlen, node->oid, SMI_RENDER_NUMERIC)`
    let t := t.deref obtained
    if f ≠ ".0".toList then t.loadOr mib vb.oid.getPrintable value else value mib t

/-- The passes over one varbind. -/
def restartHandles (vb : Vb) : ℕ → Restart → Handles → Handles
  | 0, _, t => t
  | fuel + 1, s, t =>
    match nodeRestart vb s with
    | .inl s' => restartHandles vb fuel s' (nodeRestartHandles vb s.mib t)
    | .inr _ => nodeRestartHandles vb s.mib t

section
variable (env : Printing)

def varbindHandles (fuel : ℕ) (ctx : Locals) : List Vb → ℕ → AgentState → Handles → Handles
  | [], _, _, t => t
  | vb :: rest, z, a, t =>
    if ctx.outOfScope a.theoid vb then t
    else
      let t := restartHandles vb (fuel + 1) ⟨a.mib, []⟩ t
      match formatVarbind env fuel ctx z vb a with
      | some (a, _, false) => varbindHandles fuel ctx rest (z + 1) a.flush t
      | _ => t

def asyncCallbackHandles (iswalk : Bool) (r : Response) (a : AgentState) (t : Handles) : Handles :=
  if r.reason ∉ responseReasons ∨ (iswalk ∧ r.pdu.errorStatus = noSuchName) ∨
      (r.pdu.errorStatus ≠ 0 ∧ r.pdu.errorIndex ≤ 0) ∨ r.pdu.vblist = [] then t
  else
    varbindHandles env r.fuel (r.locals iswalk) (r.handled iswalk) ((r.locals iswalk).pduIndex - 1)
      (r.enterLoop a) t

def setHandles (ctx : Locals) (mib : MibState) : List Vb → ℕ → Handles → Handles
  | [], _, t => t
  | vb :: rest, z, t =>
    if vb.value.getSyntax = .endOfMibView then t
    else
      let node := nodeOf mib vb
      let t := if node.isSome then t.deref t.epoch else t
      if ctx.failed z vb && node.isSome then t else setHandles ctx mib rest (z + 1) t

def asyncCallbackSetHandles (r : Response) (a : AgentState) (t : Handles) : Handles :=
  if r.reason ∉ responseReasons ∨ (r.pdu.errorStatus ≠ 0 ∧ r.pdu.errorIndex ≤ 0) then t
  else setHandles (r.locals false) a.mib (r.handled false) ((r.locals false).pduIndex - 1) t

def callbackHandles (kind : CallbackKind) (r : Response) (a : AgentState) (t : Handles) : Handles :=
  match kind with
  | .walk => asyncCallbackHandles env true r a t
  | .query => asyncCallbackHandles env false r a t
  | .set => asyncCallbackSetHandles r a t

end

/-- Handles that are looked up again behind every reload. -/
structure Handles.Follows (t t' : Handles) : Prop where
  epoch_le : t.epoch ≤ t'.epoch
  fresh : AllFresh t'.derefs ↔ AllFresh t.derefs

namespace Handles.Follows

theorem refl (t : Handles) : t.Follows t := ⟨le_rfl, Iff.rfl⟩

theorem trans {t t' t'' : Handles} (h : t.Follows t') (h' : t'.Follows t'') : t.Follows t'' :=
  ⟨h.epoch_le.trans h'.epoch_le, h'.fresh.trans h.fresh⟩

theorem deref (t : Handles) {obtained : ℕ} (hobtained : obtained = t.epoch) : t.Follows (t.deref obtained) :=
  ⟨le_rfl, allFresh_append.trans (and_iff_left (allFresh_singleton.mpr hobtained))⟩

theorem loadOr (t : Handles) (mib : MibState) (text : String) {next : MibState → Handles → Handles}
    (hnext : ∀ mib, t.Follows (next mib t)) : t.Follows (t.loadOr mib text next) := by
  unfold Handles.loadOr
  simp only
  split
  · exact ⟨Nat.le_add_right t.epoch 2, Iff.rfl⟩
  · exact hnext _

end Handles.Follows

open Handles

/-- The node of a pass is looked up by the pass itself, and no module is loaded between that and
its last use. -/
theorem nodeRestartHandles_follows (vb : Vb) (mib : MibState) (t : Handles) :
    t.Follows (nodeRestartHandles vb mib t) := by
  unfold nodeRestartHandles
  split
  · exact Follows.loadOr t mib _ fun _ => Follows.refl t
  · rename_i node _
    have hvalue : ∀ (mib : MibState) (t' : Handles), t'.epoch = t.epoch → t'.Follows
        (if isOidType node then
          (t'.deref t.epoch).loadOr mib vb.getOidValue.getPrintable fun _ t' => t'.deref t.epoch
        else (t'.deref t.epoch).deref t.epoch) := by
      intro mib t' ht'
      have hread := Follows.deref t' ht'.symm
      split
      · exact hread.trans (Follows.loadOr _ mib _ fun _ => Follows.deref _ ht'.symm)
      · exact hread.trans (Follows.deref _ ht'.symm)
    have hread := Follows.deref t rfl
    simp only
    split
    · exact hread.trans (Follows.loadOr _ mib _ fun mib => hvalue mib _ rfl)
    · exact hread.trans (hvalue mib _ rfl)

/-- The library is started again exactly in the passes of `nodeRestart` that jump back. -/
theorem nodeRestartHandles_epoch (vb : Vb) (s : Restart) (t : Handles) :
    (nodeRestartHandles vb s.mib t).epoch = t.epoch + if (nodeRestart vb s).isLeft then 2 else 0 := by
  have hload : ∀ (s : Restart) (t : Handles) (text : String) (next : Restart → Restart ⊕ Resolved)
      (nextHandles : MibState → Handles → Handles),
      (∀ mib, (nextHandles mib t).epoch = t.epoch + if (next ⟨mib, s.loading⟩).isLeft then 2 else 0) →
      (t.loadOr s.mib text nextHandles).epoch =
        t.epoch + if (SnmpB.Agent.loadOr text s next).isLeft then 2 else 0 := by
    intro s t text next nextHandles hnext
    unfold Handles.loadOr SnmpB.Agent.loadOr
    simp only
    split
    · rfl
    · exact hnext _
  unfold nodeRestartHandles nodeRestart
  cases getNodeFromOid s.mib.handle vb.oid with
  | none => exact hload s t _ _ _ fun _ => rfl
  | some node =>
    simp only
    have hvalue : ∀ (mib : MibState) (t' : Handles), t'.epoch = t.epoch →
        (if isOidType node then
          (t'.deref t.epoch).loadOr mib vb.getOidValue.getPrintable fun _ t' => t'.deref t.epoch
        else (t'.deref t.epoch).deref t.epoch).epoch = t'.epoch + if (if isOidType node then
          SnmpB.Agent.loadOr vb.getOidValue.getPrintable ⟨mib, s.loading⟩
            fun s => (.inr ⟨s.mib, s.loading, some (node, Oid.restOf (Oid.dotted node.oid)
              (Oid.dotted vb.oid))⟩ : Restart ⊕ Resolved)
          else .inr ⟨mib, s.loading, some (node, Oid.restOf (Oid.dotted node.oid)
            (Oid.dotted vb.oid))⟩).isLeft then 2 else 0 := by
      intro mib t' _
      split
      · exact hload ⟨mib, s.loading⟩ (t'.deref t.epoch) _ _ _ fun _ => rfl
      · rfl
    split
    · exact hload s (t.deref t.epoch) _ _ _ fun mib => hvalue mib _ rfl
    · exact hvalue s.mib (t.deref t.epoch) rfl

theorem restartHandles_follows (vb : Vb) (fuel : ℕ) (s : Restart) (t : Handles) :
    t.Follows (restartHandles vb fuel s t) := by
  induction fuel generalizing s t with
  | zero => exact Follows.refl t
  | succ fuel ih =>
    have hpass := nodeRestartHandles_follows vb s.mib t
    rw [restartHandles]
    split
    · exact hpass.trans (ih _ _)
    · exact hpass

variable {env : Printing}

theorem varbindHandles_follows (fuel : ℕ) (ctx : Locals) (vbs : List Vb) (z : ℕ) (a : AgentState)
    (t : Handles) : t.Follows (varbindHandles env fuel ctx vbs z a t) := by
  induction vbs generalizing z a t with
  | nil => exact Follows.refl t
  | cons vb rest ih =>
    rw [varbindHandles]
    split
    · exact Follows.refl t
    · have hvarbind := restartHandles_follows vb (fuel + 1) ⟨a.mib, []⟩ t
      simp only
      split
      · exact hvarbind.trans (ih _ _ _)
      · exact hvarbind

theorem setHandles_follows (ctx : Locals) (mib : MibState) (vbs : List Vb) (z : ℕ) (t : Handles) :
    t.Follows (setHandles ctx mib vbs z t) ∧ (setHandles ctx mib vbs z t).epoch = t.epoch := by
  induction vbs generalizing z t with
  | nil => exact ⟨Follows.refl t, rfl⟩
  | cons vb rest ih =>
    rw [setHandles]
    split
    · exact ⟨Follows.refl t, rfl⟩
    · simp only
      generalize ht' : (if (nodeOf mib vb).isSome then t.deref t.epoch else t) = t'
      have hread : t.Follows t' ∧ t'.epoch = t.epoch := by
        rw [← ht']
        split
        · exact ⟨Follows.deref t rfl, rfl⟩
        · exact ⟨Follows.refl t, rfl⟩
      split
      · exact hread
      · obtain ⟨hrest, hepoch⟩ := ih (z + 1) t'
        exact ⟨hread.1.trans hrest, hepoch.trans hread.2⟩

variable (env) in
/-- The handles a callback uses itself are always fresh. -/
theorem callbackHandles_follows (kind : CallbackKind) (r : Response) (a : AgentState) (t : Handles) :
    t.Follows (callbackHandles env kind r a t) := by
  have hasync : ∀ iswalk, t.Follows (asyncCallbackHandles env iswalk r a t) := by
    intro iswalk
    unfold asyncCallbackHandles
    split
    · exact Follows.refl t
    · exact varbindHandles_follows _ _ _ _ _ t
  cases kind with
  | walk => exact hasync true
  | query => exact hasync false
  | set =>
    unfold callbackHandles asyncCallbackSetHandles
    simp only
    split
    · exact Follows.refl t
    · exact (setHandles_follows _ _ _ _ t).1

end SnmpB.Agent
