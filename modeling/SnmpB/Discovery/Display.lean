import SnmpB.Discovery.Receive
import SnmpB.Library.Gathering
import Mathlib.Data.List.Infix

/-! # The list of discovered agents

Every report becomes a row or adds its protocol to the row of its address.
-/
namespace SnmpB.Discovery
open Gathering

/-- The texts `DISC_SNMP_V1`, `DISC_SNMP_V2C` and `DISC_SNMP_V3`. -/
def protocolName : SnmpVersion → List Char
  | .version1 => ['V', '1']
  | .version2c => ['V', '2', 'c']
  | .version3 => ['V', '3']

/-- The columns of a row. The texts of the others are taken from the PDU. -/
structure AgentInfo where
  address : String
  protocol : List Char
  pdu : Agent.Pdu
  deriving DecidableEq

def sendAgentInfo (r : Report) : AgentInfo := ⟨r.message.sender, protocolName r.version, r.message.pdu⟩

/-- `strstr` of the protocol column. -/
def AgentInfo.Lists (row : AgentInfo) (v : SnmpVersion) : Prop := protocolName v <:+: row.protocol

instance (row : AgentInfo) (v : SnmpVersion) : Decidable (row.Lists v) :=
  inferInstanceAs (Decidable (protocolName v <:+: row.protocol))

/-- The protocol is one of the three and the row lists it already. -/
def alreadyListed (row info : AgentInfo) : Bool :=
  [SnmpVersion.version1, .version2c, .version3].any fun v =>
    info.protocol = protocolName v && row.Lists v

def addProtocol (row info : AgentInfo) : AgentInfo :=
  if alreadyListed row info then row
  else { row with protocol := row.protocol ++ '/' :: info.protocol }

def displayAgent (rows : List AgentInfo) (info : AgentInfo) : List AgentInfo :=
  match rows.findIdx? (·.address = info.address) with
  | some i => rows.modify i (addProtocol · info)
  | none => rows ++ [info]

/-- The rows after the reports of a run. -/
def displayed (reports : List Report) : List AgentInfo :=
  (reports.map sendAgentInfo).foldl displayAgent []

/-- Protocol names joined by slashes. -/
def joined (vs : List SnmpVersion) : List Char := ['/'].intercalate (vs.map protocolName)

theorem joined_cons_cons (v w : SnmpVersion) (vs : List SnmpVersion) :
    joined (v :: w :: vs) = protocolName v ++ '/' :: joined (w :: vs) := by
  simp [joined, List.intercalate]

theorem joined_concat {vs : List SnmpVersion} (hvs : vs ≠ []) (v : SnmpVersion) :
    joined (vs ++ [v]) = joined vs ++ '/' :: protocolName v := by
  induction vs with
  | nil => exact absurd rfl hvs
  | cons w vs ih =>
    cases vs with
    | nil => simp [joined, List.intercalate]
    | cons u vs =>
      have hrest := ih (List.cons_ne_nil u vs)
      rw [List.cons_append] at hrest
      rw [List.cons_append, List.cons_append, joined_cons_cons, hrest, joined_cons_cons,
        List.append_assoc, List.cons_append]

theorem infix_protocolName_append {v w : SnmpVersion} {text : List Char}
    (h : protocolName v <:+: protocolName w ++ '/' :: text) : v = w ∨ protocolName v <:+: text := by
  cases v <;> cases w <;> simp [protocolName, List.infix_cons_iff] at h ⊢ <;> exact h

/-- A protocol name is found only where it was put. -/
theorem mem_of_infix_joined {v : SnmpVersion} {vs : List SnmpVersion}
    (h : protocolName v <:+: joined vs) : v ∈ vs := by
  induction vs with
  | nil => cases v <;> simp [joined, protocolName] at h
  | cons w vs ih =>
    cases vs with
    | nil =>
      have hname : protocolName v <:+: protocolName w := by simpa [joined] using h
      cases v <;> cases w <;> first | exact List.mem_cons_self | exact absurd hname (by decide)
    | cons u vs =>
      rw [joined_cons_cons] at h
      rcases infix_protocolName_append h with rfl | htail
      · exact List.mem_cons_self
      · exact List.mem_cons_of_mem _ (ih htail)

theorem infix_joined_iff {v : SnmpVersion} {vs : List SnmpVersion} : protocolName v <:+: joined vs ↔ v ∈ vs := by
  refine ⟨mem_of_infix_joined, fun hv => ?_⟩
  induction vs with
  | nil => cases hv
  | cons w vs ih =>
    cases vs with
    | nil =>
      rw [List.mem_singleton.mp hv]
      simp [joined]
    | cons u vs =>
      rw [joined_cons_cons]
      rcases List.mem_cons.mp hv with rfl | hv
      · exact (List.prefix_append _ _).isInfix
      · exact ((ih hv).trans (List.suffix_cons _ _).isInfix).trans (List.suffix_append _ _).isInfix

theorem protocolName_injective : Function.Injective protocolName := by
  intro v w h
  cases v <;> cases w <;> first | rfl | exact absurd h (by decide)

theorem alreadyListed_iff {row : AgentInfo} {vs : List SnmpVersion} (hrow : row.protocol = joined vs) (r : Report) :
    alreadyListed row (sendAgentInfo r) = true ↔ r.version ∈ vs := by
  have hall : ∀ v : SnmpVersion, v ∈ [SnmpVersion.version1, .version2c, .version3] := by
    rintro (_ | _ | _) <;> decide
  simp only [alreadyListed, List.any_eq_true, hall, true_and, Bool.and_eq_true, decide_eq_true_eq, AgentInfo.Lists,
    hrow, infix_joined_iff, sendAgentInfo, protocolName_injective.eq_iff, exists_eq_left']

/-- The protocols reported for an address, in the order of their first reports. -/
def protocolsOf (reports : List Report) (address : String) : List SnmpVersion :=
  ((reports.filter fun r => decide (r.message.sender = address)).map (·.version)).eraseDups

theorem mem_protocolsOf {reports : List Report} {address : String} {v : SnmpVersion} :
    v ∈ protocolsOf reports address ↔ ∃ r ∈ reports, r.message.sender = address ∧ r.version = v := by
  simp [protocolsOf, and_assoc]

def addReport (row : AgentInfo) (r : Report) : AgentInfo := addProtocol row (sendAgentInfo r)

theorem addReport_address (row : AgentInfo) (r : Report) : (addReport row r).address = row.address := by
  rw [addReport, addProtocol]
  split <;> rfl

/-- What one agent's reports make of its row. -/
theorem foldl_addReport (r : Report) (rest : List Report) :
    (rest.foldl addReport (sendAgentInfo r)).protocol = joined (((r :: rest).map (·.version)).eraseDups) := by
  induction rest using List.reverseRecOn with
  | nil => simp [sendAgentInfo, joined, List.eraseDups_cons]
  | append_singleton rest last ih =>
    have hsome : ((r :: rest).map (·.version)).eraseDups ≠ [] := by
      apply List.ne_nil_of_mem (List.mem_eraseDups.mpr _)
      · exact r.version
      · exact List.mem_cons_self
    have hlisted := alreadyListed_iff ih last
    rw [List.mem_eraseDups] at hlisted
    rw [List.foldl_concat, ← List.cons_append, List.map_append, List.map_singleton, eraseDups_concat, addReport,
      addProtocol]
    by_cases hold : last.version ∈ (r :: rest).map (·.version)
    · rw [if_pos (hlisted.mpr hold), if_pos hold, ih]
    · rw [if_neg (hlisted.not.mpr hold), if_neg hold, joined_concat hsome, ← ih]
      rfl

theorem displayed_gathered (reports : List Report) :
    Gathered (fun r : Report => r.message.sender) AgentInfo.address sendAgentInfo addReport reports
      (displayed reports) := by
  have hstep : (fun rows r => displayAgent rows (sendAgentInfo r)) =
      gather (fun r : Report => r.message.sender) AgentInfo.address sendAgentInfo addReport := rfl
  have hfresh : ∀ r : Report, (sendAgentInfo r).address = r.message.sender := fun _ => rfl
  rw [displayed, List.foldl_map, hstep]
  exact foldl_gather hfresh addReport_address reports

theorem displayed_protocol {reports : List Report} {row : AgentInfo} (hrow : row ∈ displayed reports) :
    row.protocol = joined (protocolsOf reports row.address) := by
  obtain ⟨r, rest, hfilter, hmade⟩ := (displayed_gathered reports).made row hrow
  rw [protocolsOf, hfilter, ← foldl_addReport, ← hmade]

/-- A protocol listed for an address was reported for it, and the other way. -/
theorem lists_iff {reports : List Report} {row : AgentInfo} (hrow : row ∈ displayed reports) {v : SnmpVersion} :
    row.Lists v ↔ ∃ r ∈ reports, r.message.sender = row.address ∧ r.version = v := by
  rw [AgentInfo.Lists, displayed_protocol hrow, infix_joined_iff, mem_protocolsOf]

/-- One row for each address, in the order of the first reports, with the protocols reported for it. -/
theorem displayed_rows (reports : List Report) :
    (displayed reports).map (·.address) = (reports.map (·.message.sender)).eraseDups ∧
    ((displayed reports).map (·.address)).Nodup ∧
    ∀ row ∈ displayed reports, row.protocol = joined (protocolsOf reports row.address) ∧
      (protocolsOf reports row.address).Nodup ∧
      ∀ v, row.Lists v ↔ ∃ r ∈ reports, r.message.sender = row.address ∧ r.version = v := by
  have hrows := displayed_gathered reports
  refine ⟨hrows.keys, hrows.keys ▸ nodup_eraseDups _, fun row hrow => ?_⟩
  exact ⟨displayed_protocol hrow, nodup_eraseDups _, fun _ => lists_iff hrow⟩

end SnmpB.Discovery
