import SnmpB.Library.Watermark
import SnmpB.Profile.UserTable
import Mathlib.Algebra.Order.Group.Unbundled.Abs
import Mathlib.Algebra.Order.Ring.Int
import Mathlib.Data.Prod.Lex

/-! # The table of engine times

For each engine whose messages it checks, the security model keeps the boots and the time
of the newest message and how far that time is from its own clock. The first entry of the
array is the local engine; the other engines follow in the order they became known in.
Times are integers here. The `long` of the code overflows for times near 2^63, to which 150
seconds are added, or those that went by.
-/
namespace SnmpB.Usm
open Watermark
open SnmpB.Profile (OctetStr)

def maxLengthEngineId : ℕ := 32

/-- The entry of another engine. -/
structure TimeEntry where
  engineId : OctetStr
  engineBoots : ℤ
  latestReceivedTime : ℤ
  timeDiff : ℤ
  fits : engineId.length ≤ maxLengthEngineId
  deriving DecidableEq

/-- `entries` are those behind the local engine. -/
structure USMTimeTable where
  localEngineId : OctetStr
  localBoots : ℤ
  localTimeDiff : ℤ
  entries : List TimeEntry
  fits : localEngineId.length ≤ maxLengthEngineId
  deriving DecidableEq

inductive TimeCheck
  | ok
  | notInTimeWindow
  | unknownEngineId
  deriving DecidableEq

/-- The first entry of an engine. -/
def timeEntry (engineId : OctetStr) (entries : List TimeEntry) : Option TimeEntry :=
  entries.find? fun e => decide (e.engineId = engineId)

namespace TimeEntry

/-- Too old for a message of another engine. -/
def refuses (e : TimeEntry) (engineBoots engineTime now : ℤ) : Prop :=
  engineBoots < e.engineBoots ∨ (engineBoots = e.engineBoots ∧ e.timeDiff + now > engineTime + 150) ∨
    e.engineBoots = 2147483647

instance (e : TimeEntry) (engineBoots engineTime now : ℤ) : Decidable (e.refuses engineBoots engineTime now) :=
  inferInstanceAs (Decidable (_ ∨ _ ∨ _))

/-- A message that is newer moves the entry. -/
def update (e : TimeEntry) (engineBoots engineTime now : ℤ) : TimeEntry :=
  if engineBoots > e.engineBoots ∨ (engineBoots = e.engineBoots ∧ engineTime > e.latestReceivedTime) then
    { e with engineBoots := engineBoots, latestReceivedTime := engineTime, timeDiff := engineTime - now }
  else e

@[simp] theorem update_engineId (e : TimeEntry) (engineBoots engineTime now : ℤ) :
    (e.update engineBoots engineTime now).engineId = e.engineId := by
  unfold update
  split <;> rfl

end TimeEntry

/-- The loop of `check_time` over the other engines. -/
def checkEntries (engineId : OctetStr) (engineBoots engineTime now : ℤ) :
    List TimeEntry → TimeCheck × List TimeEntry
  | [] => (.unknownEngineId, [])
  | e :: entries =>
    if e.engineId = engineId then
      if e.refuses engineBoots engineTime now then (.notInTimeWindow, e :: entries)
      else (.ok, e.update engineBoots engineTime now :: entries)
    else
      let (check, entries) := checkEntries engineId engineBoots engineTime now entries
      (check, e :: entries)

namespace USMTimeTable

/-- The table as it is made. In each function `now` is what `time` gives. -/
def start (engineId : OctetStr) (engineBoots now : ℤ) : USMTimeTable where
  localEngineId := engineId.take maxLengthEngineId
  localBoots := engineBoots
  localTimeDiff := -now
  entries := []
  fits := List.length_take_le _ _

/-- An engine identifier that is too long is cut. -/
def addEntry (t : USMTimeTable) (engineId : OctetStr) (engineBoots engineTime now : ℤ) : USMTimeTable :=
  { t with entries := t.entries ++
      [⟨engineId.take maxLengthEngineId, engineBoots, engineTime, engineTime - now, List.length_take_le _ _⟩] }

/-- Boots and time of an engine in the table. -/
def getTime (t : USMTimeTable) (engineId : OctetStr) (now : ℤ) : Option (ℤ × ℤ) :=
  if t.localEngineId = engineId then some (t.localBoots, t.localTimeDiff + now)
  else (timeEntry engineId t.entries).map fun e => (e.engineBoots, e.timeDiff + now)

def checkTime (t : USMTimeTable) (engineId : OctetStr) (engineBoots engineTime now : ℤ) : TimeCheck × USMTimeTable :=
  if t.localEngineId = engineId then
    if t.localBoots = 2147483647 ∨ t.localBoots ≠ engineBoots ∨ |now + t.localTimeDiff - engineTime| > 150 then
      (.notInTimeWindow, t)
    else (.ok, t)
  else
    let (check, entries) := checkEntries engineId engineBoots engineTime now t.entries
    (check, { t with entries := entries })

/-- Whether the engine is known afterwards. With discovery every engine is accepted. -/
def checkEngineId (discovery : Bool) (t : USMTimeTable) (engineId : OctetStr) (now : ℤ) : Bool × USMTimeTable :=
  if t.localEngineId = engineId ∨ (timeEntry engineId t.entries).isSome then (true, t)
  else if discovery then (true, t.addEntry engineId 0 0 now)
  else (false, t)

/-- The time `generate_msg` puts into a message; an engine that is not in the table is added to it. -/
def timeFor (t : USMTimeTable) (engineId : OctetStr) (now : ℤ) : (ℤ × ℤ) × USMTimeTable :=
  match t.getTime engineId now with
  | some bootsAndTime => (bootsAndTime, t)
  | none => ((0, 0), t.addEntry engineId 0 0 now)

end USMTimeTable

/-! ## One entry -/

/-- Boots and time of a message, the later ones larger. -/
abbrev Stamp := ℤ ×ₗ ℤ

def stamp (engineBoots engineTime : ℤ) : Stamp := toLex (engineBoots, engineTime)

theorem stamp_lt {b b' T T' : ℤ} : stamp b T < stamp b' T' ↔ b < b' ∨ (b = b' ∧ T < T') := Prod.Lex.toLex_lt_toLex

theorem stamp_le {b b' T T' : ℤ} : stamp b T ≤ stamp b' T' ↔ b < b' ∨ (b = b' ∧ T ≤ T') := Prod.Lex.toLex_le_toLex

namespace TimeEntry

/-- The newest message of an engine and when it came. -/
def mark (e : TimeEntry) : Stamp × ℤ :=
  (stamp e.engineBoots e.latestReceivedTime, e.latestReceivedTime - e.timeDiff)

theorem mark_update (e : TimeEntry) (engineBoots engineTime now : ℤ) :
    (e.update engineBoots engineTime now).mark = note e.mark (stamp engineBoots engineTime, now) := by
  have hnewer : stamp e.engineBoots e.latestReceivedTime < stamp engineBoots engineTime ↔
      engineBoots > e.engineBoots ∨ (engineBoots = e.engineBoots ∧ engineTime > e.latestReceivedTime) := by
    rw [stamp_lt, eq_comm (a := engineBoots)]
  unfold update
  by_cases h : engineBoots > e.engineBoots ∨ (engineBoots = e.engineBoots ∧ engineTime > e.latestReceivedTime)
  · have hlt : e.mark.1 < (stamp engineBoots engineTime, now).1 := hnewer.mpr h
    rw [if_pos h, note_of_lt hlt]
    simp only [mark, sub_sub_cancel]
  · have hnot : ¬ e.mark.1 < (stamp engineBoots engineTime, now).1 := fun hlt => h (hnewer.mp hlt)
    rw [if_neg h, note_of_not_lt hnot]

end TimeEntry

/-! ## The first entry of an engine -/

theorem timeEntry_cons_same {e : TimeEntry} {engineId : OctetStr} (entries : List TimeEntry)
    (h : e.engineId = engineId) : timeEntry engineId (e :: entries) = some e :=
  List.find?_cons_of_pos (decide_eq_true h)

theorem timeEntry_cons_ne {e : TimeEntry} {engineId : OctetStr} (entries : List TimeEntry)
    (h : e.engineId ≠ engineId) : timeEntry engineId (e :: entries) = timeEntry engineId entries :=
  List.find?_cons_of_neg (by simpa using h)

theorem timeEntry_some {engineId : OctetStr} {entries : List TimeEntry} {e : TimeEntry}
    (h : timeEntry engineId entries = some e) : e ∈ entries ∧ e.engineId = engineId :=
  ⟨List.mem_of_find?_eq_some h, by simpa using List.find?_some h⟩

theorem checkEntries_fst (engineId : OctetStr) (engineBoots engineTime now : ℤ) (entries : List TimeEntry) :
    (checkEntries engineId engineBoots engineTime now entries).1 =
      (timeEntry engineId entries).elim .unknownEngineId fun e =>
        if e.refuses engineBoots engineTime now then .notInTimeWindow else .ok := by
  induction entries with
  | nil => rfl
  | cons e entries ih =>
    unfold checkEntries
    by_cases hid : e.engineId = engineId
    · rw [if_pos hid, timeEntry_cons_same entries hid, Option.elim_some]
      split <;> rfl
    · rw [if_neg hid, timeEntry_cons_ne entries hid]
      exact ih

theorem timeEntry_checkEntries (engineId other : OctetStr) (engineBoots engineTime now : ℤ)
    (entries : List TimeEntry) :
    timeEntry other (checkEntries engineId engineBoots engineTime now entries).2 =
      (timeEntry other entries).map fun e =>
        if other = engineId ∧ ¬ e.refuses engineBoots engineTime now then e.update engineBoots engineTime now else e := by
  induction entries with
  | nil => rfl
  | cons e entries ih =>
    unfold checkEntries
    by_cases hid : e.engineId = engineId
    · rw [if_pos hid]
      by_cases hother : e.engineId = other
      · have hsame : other = engineId := hother.symm.trans hid
        rw [timeEntry_cons_same entries hother, Option.map_some]
        by_cases hrefused : e.refuses engineBoots engineTime now
        · rw [if_pos hrefused, if_neg fun h => h.2 hrefused]
          exact timeEntry_cons_same entries hother
        · rw [if_neg hrefused, if_pos ⟨hsame, hrefused⟩]
          exact timeEntry_cons_same entries ((e.update_engineId _ _ _).trans hother)
      · have hdiff : other ≠ engineId := fun h => hother (hid.trans h.symm)
        have hunmoved : ((timeEntry other entries).map fun e =>
            if other = engineId ∧ ¬ e.refuses engineBoots engineTime now then e.update engineBoots engineTime now
            else e) = timeEntry other entries := by
          simp [hdiff]
        rw [timeEntry_cons_ne entries hother, hunmoved]
        split
        · exact timeEntry_cons_ne entries hother
        · exact timeEntry_cons_ne entries fun h => hother ((e.update_engineId _ _ _).symm.trans h)
    · rw [if_neg hid]
      by_cases hother : e.engineId = other
      · have hdiff : ¬ (other = engineId ∧ ¬ e.refuses engineBoots engineTime now) := fun h =>
          hid (hother.trans h.1)
        rw [timeEntry_cons_same entries hother, Option.map_some, if_neg hdiff]
        exact timeEntry_cons_same _ hother
      · rw [timeEntry_cons_ne entries hother, ← ih]
        exact timeEntry_cons_ne _ hother

theorem timeEntry_addEntry (t : USMTimeTable) (engineId other : OctetStr) (engineBoots engineTime now : ℤ) :
    timeEntry other (t.addEntry engineId engineBoots engineTime now).entries =
      (timeEntry other t.entries).or
        (if engineId.take maxLengthEngineId = other then
          some ⟨engineId.take maxLengthEngineId, engineBoots, engineTime, engineTime - now, List.length_take_le _ _⟩
        else none) := by
  unfold USMTimeTable.addEntry
  have happend : ∀ added : List TimeEntry, timeEntry other (t.entries ++ added) =
      (timeEntry other t.entries).or (timeEntry other added) := fun added => List.find?_append
  rw [happend]
  congr 1
  by_cases h : engineId.take maxLengthEngineId = other
  · rw [if_pos h, timeEntry_cons_same [] h]
  · rw [if_neg h, timeEntry_cons_ne [] h]
    rfl

end SnmpB.Usm
