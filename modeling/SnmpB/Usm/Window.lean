import SnmpB.Usm.TimeTable
import Mathlib.Data.List.Infix

/-! # The time window over a run

What the table answers about a message of another engine depends on the messages it
accepted from that engine before and on when they came, on nothing else. Read as a history,
an engine is unknown at first; it becomes known with a message of its own or with one that
is sent to it, at boots and time zero; from then on its accepted messages pile up.
-/
namespace SnmpB.Usm
open Watermark
open SnmpB.Profile (OctetStr)

/-! ## Runs of the table -/

/-- What the security model asks of the table. -/
inductive TimeEvent
  | checkEngineId (engineId : OctetStr)
  | checkTime (engineId : OctetStr) (engineBoots engineTime : ℤ)
  | timeFor (engineId : OctetStr)

/-- One request at the time `now`. -/
def timeStep (discovery : Bool) (t : USMTimeTable) (e : TimeEvent × ℤ) : USMTimeTable :=
  match e.1 with
  | .checkEngineId engineId => (USMTimeTable.checkEngineId discovery t engineId e.2).2
  | .checkTime engineId engineBoots engineTime => (t.checkTime engineId engineBoots engineTime e.2).2
  | .timeFor engineId => (t.timeFor engineId e.2).2

def timeRun (discovery : Bool) (t : USMTimeTable) (es : List (TimeEvent × ℤ)) : USMTimeTable :=
  es.foldl (timeStep discovery) t

/-! ## Histories -/

/-- An engine since it became known: its accepted messages with their arrivals. -/
structure History where
  known : ℤ
  accepted : List (Stamp × ℤ)

namespace History

/-- The newest message; in the beginning the zeros the engine became known with. -/
def newest (h : History) : Stamp × ℤ := Watermark.newest (stamp 0 0, h.known) h.accepted

/-- Older boots, the same boots and more than 150 seconds behind the newest message counted from
its arrival, or an engine whose boots have run out. -/
def Outside (h : History) (engineBoots engineTime now : ℤ) : Prop :=
  engineBoots < (ofLex h.newest.1).1 ∨
    (engineBoots = (ofLex h.newest.1).1 ∧ (ofLex h.newest.1).2 + (now - h.newest.2) > engineTime + 150) ∨
    (ofLex h.newest.1).1 = 2147483647

instance (h : History) (engineBoots engineTime now : ℤ) : Decidable (h.Outside engineBoots engineTime now) :=
  inferInstanceAs (Decidable (_ ∨ _ ∨ _))

def accept (h : History) (engineBoots engineTime now : ℤ) : History :=
  if h.Outside engineBoots engineTime now then h
  else { h with accepted := h.accepted ++ [(stamp engineBoots engineTime, now)] }

/-- What a message of the engine is answered. -/
def answer (h : Option History) (engineBoots engineTime now : ℤ) : TimeCheck :=
  h.elim .unknownEngineId fun h => if h.Outside engineBoots engineTime now then .notInTimeWindow else .ok

end History

/-- The history of one engine. It becomes known with any identifier that is cut to its own. -/
def historyStep (discovery : Bool) (engineId : OctetStr) (h : Option History) (e : TimeEvent × ℤ) :
    Option History :=
  match h, e.1 with
  | none, .checkEngineId named =>
    if discovery ∧ named.take maxLengthEngineId = engineId then some ⟨e.2, []⟩ else none
  | none, .timeFor named => if named.take maxLengthEngineId = engineId then some ⟨e.2, []⟩ else none
  | none, .checkTime _ _ _ => none
  | some h, .checkTime named engineBoots engineTime =>
    if named = engineId then some (h.accept engineBoots engineTime e.2) else some h
  | some h, _ => some h

def history (discovery : Bool) (engineId : OctetStr) (es : List (TimeEvent × ℤ)) : Option History :=
  es.foldl (historyStep discovery engineId) none

/-! ## The table keeps the watermarks -/

/-- The entry of the engine is the watermark of its history. -/
def Tracks (engineId : OctetStr) (t : USMTimeTable) (h : Option History) : Prop :=
  (timeEntry engineId t.entries).map TimeEntry.mark = h.map History.newest

theorem refuses_iff {e : TimeEntry} {h : History} (hmark : e.mark = h.newest) (engineBoots engineTime now : ℤ) :
    e.refuses engineBoots engineTime now ↔ h.Outside engineBoots engineTime now := by
  have hlate : e.timeDiff + now = e.latestReceivedTime + (now - (e.latestReceivedTime - e.timeDiff)) := by omega
  unfold TimeEntry.refuses History.Outside
  rw [← hmark, hlate]
  rfl

section tracks
variable {discovery : Bool} {engineId : OctetStr} {t : USMTimeTable} {h : Option History}

theorem Tracks.cases (htracks : Tracks engineId t h) :
    (timeEntry engineId t.entries = none ∧ h = none) ∨
      ∃ e h', timeEntry engineId t.entries = some e ∧ h = some h' ∧ e.mark = h'.newest := by
  unfold Tracks at htracks
  cases hentry : timeEntry engineId t.entries with
  | none =>
    rw [hentry] at htracks
    cases h with
    | none => exact Or.inl ⟨rfl, rfl⟩
    | some h => cases htracks
  | some e =>
    rw [hentry] at htracks
    cases h with
    | none => cases htracks
    | some h => exact Or.inr ⟨e, h, rfl, rfl, Option.some.inj htracks⟩

theorem Tracks.answer (htracks : Tracks engineId t h) (hremote : t.localEngineId ≠ engineId)
    (engineBoots engineTime now : ℤ) :
    (t.checkTime engineId engineBoots engineTime now).1 = History.answer h engineBoots engineTime now := by
  unfold USMTimeTable.checkTime
  rw [if_neg hremote]
  simp only
  rw [checkEntries_fst]
  rcases htracks.cases with ⟨hentry, rfl⟩ | ⟨e, h, hentry, rfl, hmark⟩
  · rw [hentry]
    rfl
  · have hiff := refuses_iff hmark engineBoots engineTime now
    rw [hentry, Option.elim_some, History.answer, Option.elim_some]
    by_cases hrefused : e.refuses engineBoots engineTime now
    · rw [if_pos hrefused, if_pos (hiff.mp hrefused)]
    · rw [if_neg hrefused, if_neg fun hout => hrefused (hiff.mpr hout)]

/-- An engine that is added is in its place at zero, unless it was there before. -/
theorem Tracks.addEntry (htracks : Tracks engineId t h) (named : OctetStr) (now : ℤ) :
    Tracks engineId (t.addEntry named 0 0 now)
      (h.or (if named.take maxLengthEngineId = engineId then some ⟨now, []⟩ else none)) := by
  unfold Tracks
  rw [timeEntry_addEntry]
  rcases htracks.cases with ⟨hentry, rfl⟩ | ⟨e, h, hentry, rfl, hmark⟩
  · rw [hentry, Option.none_or, Option.none_or]
    split
    · simp [TimeEntry.mark, History.newest]
    · rfl
  · rw [hentry, Option.some_or, Option.some_or]
    exact congrArg some hmark

theorem mark_accept {e : TimeEntry} {h : History} (hmark : e.mark = h.newest) (engineBoots engineTime now : ℤ) :
    (if e.refuses engineBoots engineTime now then e else e.update engineBoots engineTime now).mark =
      (h.accept engineBoots engineTime now).newest := by
  have hiff := refuses_iff hmark engineBoots engineTime now
  unfold History.accept
  by_cases hrefused : e.refuses engineBoots engineTime now
  · rw [if_pos hrefused, if_pos (hiff.mp hrefused)]
    exact hmark
  · rw [if_neg hrefused, if_neg fun hout => hrefused (hiff.mpr hout), TimeEntry.mark_update, hmark]
    exact (newest_snoc _ h.accepted _).symm

theorem Tracks.checkTime (htracks : Tracks engineId t h) (hremote : t.localEngineId ≠ engineId)
    (named : OctetStr) (engineBoots engineTime now : ℤ) :
    Tracks engineId (t.checkTime named engineBoots engineTime now).2
      (historyStep discovery engineId h (.checkTime named engineBoots engineTime, now)) := by
  unfold Tracks USMTimeTable.checkTime
  by_cases hlocal : t.localEngineId = named
  · have hother : ¬ named = engineId := fun heq => hremote (hlocal.trans heq)
    rw [if_pos hlocal]
    rcases htracks.cases with ⟨hentry, rfl⟩ | ⟨e, h, hentry, rfl, hmark⟩
    · split <;> exact htracks
    · simp only [historyStep, if_neg hother]
      split <;> exact htracks
  · rw [if_neg hlocal]
    simp only
    rw [timeEntry_checkEntries]
    rcases htracks.cases with ⟨hentry, rfl⟩ | ⟨e, h, hentry, rfl, hmark⟩
    · rw [hentry]
      rfl
    · rw [hentry, Option.map_some, Option.map_some]
      simp only [historyStep]
      by_cases hnamed : named = engineId
      · have haccept := mark_accept hmark engineBoots engineTime now
        rw [if_pos hnamed, Option.map_some, ← haccept]
        by_cases hrefused : e.refuses engineBoots engineTime now
        · rw [if_pos hrefused, if_neg fun h => h.2 hrefused]
        · rw [if_neg hrefused, if_pos ⟨hnamed.symm, hrefused⟩]
      · rw [if_neg hnamed, if_neg fun h => hnamed h.1.symm]
        exact congrArg some hmark

theorem Tracks.checkEngineId (htracks : Tracks engineId t h) (hremote : t.localEngineId ≠ engineId)
    (named : OctetStr) (now : ℤ) :
    Tracks engineId (USMTimeTable.checkEngineId discovery t named now).2
      (historyStep discovery engineId h (.checkEngineId named, now)) := by
  unfold USMTimeTable.checkEngineId
  by_cases hknown : t.localEngineId = named ∨ (timeEntry named t.entries).isSome
  · rw [if_pos hknown]
    rcases htracks.cases with ⟨hentry, rfl⟩ | ⟨e, h, hentry, rfl, hmark⟩
    · -- an identifier in the table is not cut, so it is another engine's
      have hnot : ¬ (discovery = true ∧ named.take maxLengthEngineId = engineId) := by
        rintro ⟨-, hcut⟩
        rcases hknown with rfl | hsome
        · rw [List.take_of_length_le t.fits] at hcut
          exact hremote hcut
        · obtain ⟨e, he⟩ := Option.isSome_iff_exists.mp hsome
          have hlength : named.length ≤ maxLengthEngineId := (timeEntry_some he).2 ▸ e.fits
          rw [List.take_of_length_le hlength] at hcut
          rw [hcut, hentry] at he
          cases he
      simp only [historyStep, if_neg hnot]
      exact htracks
    · exact htracks
  · rw [if_neg hknown]
    cases discovery with
    | true =>
      have hadded := htracks.addEntry named now
      rcases htracks.cases with ⟨hentry, rfl⟩ | ⟨e, h, hentry, rfl, hmark⟩
      · simp only [if_true, historyStep, true_and]
        exact hadded
      · exact hadded
    | false =>
      rcases htracks.cases with ⟨hentry, rfl⟩ | ⟨e, h, hentry, rfl, hmark⟩
      · exact htracks
      · exact htracks

theorem Tracks.timeFor (htracks : Tracks engineId t h) (hremote : t.localEngineId ≠ engineId)
    (named : OctetStr) (now : ℤ) :
    Tracks engineId (t.timeFor named now).2 (historyStep discovery engineId h (.timeFor named, now)) := by
  unfold USMTimeTable.timeFor USMTimeTable.getTime
  by_cases hlocal : t.localEngineId = named
  · rw [if_pos hlocal]
    rcases htracks.cases with ⟨hentry, rfl⟩ | ⟨e, h, hentry, rfl, hmark⟩
    · have hnot : ¬ named.take maxLengthEngineId = engineId := by
        rw [← hlocal, List.take_of_length_le t.fits]
        exact hremote
      simp only [historyStep, if_neg hnot]
      exact htracks
    · exact htracks
  · rw [if_neg hlocal]
    cases hnamed : timeEntry named t.entries with
    | none =>
      have hadded := htracks.addEntry named now
      rcases htracks.cases with ⟨hentry, rfl⟩ | ⟨e, h, hentry, rfl, hmark⟩
      · exact hadded
      · exact hadded
    | some e =>
      rcases htracks.cases with ⟨hentry, rfl⟩ | ⟨e', h, hentry, rfl, hmark⟩
      · have hlength : named.length ≤ maxLengthEngineId := (timeEntry_some hnamed).2 ▸ e.fits
        have hnot : ¬ named.take maxLengthEngineId = engineId := by
          rw [List.take_of_length_le hlength]
          rintro rfl
          rw [hentry] at hnamed
          cases hnamed
        simp only [historyStep, if_neg hnot]
        exact htracks
      · exact htracks

variable (discovery)

theorem timeStep_localEngineId (e : TimeEvent × ℤ) : (timeStep discovery t e).localEngineId = t.localEngineId := by
  obtain ⟨e, now⟩ := e
  cases e with
  | checkEngineId named =>
    simp only [timeStep, USMTimeTable.checkEngineId]
    split
    · rfl
    · split <;> rfl
  | checkTime named engineBoots engineTime =>
    simp only [timeStep, USMTimeTable.checkTime]
    split
    · split <;> rfl
    · rfl
  | timeFor named =>
    simp only [timeStep, USMTimeTable.timeFor]
    split <;> rfl

theorem timeStep_tracks (htracks : Tracks engineId t h) (hremote : t.localEngineId ≠ engineId) (e : TimeEvent × ℤ) :
    Tracks engineId (timeStep discovery t e) (historyStep discovery engineId h e) := by
  obtain ⟨e, now⟩ := e
  cases e with
  | checkEngineId named => exact htracks.checkEngineId hremote named now
  | checkTime named engineBoots engineTime => exact htracks.checkTime hremote named engineBoots engineTime now
  | timeFor named => exact htracks.timeFor hremote named now

theorem timeRun_tracks (htracks : Tracks engineId t h) (hremote : t.localEngineId ≠ engineId)
    (es : List (TimeEvent × ℤ)) :
    (timeRun discovery t es).localEngineId = t.localEngineId ∧
      Tracks engineId (timeRun discovery t es) (es.foldl (historyStep discovery engineId) h) := by
  induction es generalizing t h with
  | nil => exact ⟨rfl, htracks⟩
  | cons e es ih =>
    have hlocal := timeStep_localEngineId (t := t) discovery e
    have hrest := ih (timeStep_tracks discovery htracks hremote e) (hlocal ▸ hremote)
    exact ⟨hrest.1.trans hlocal, hrest.2⟩

end tracks

/-- After any run a message of another engine is answered by the history of that engine. -/
theorem checkTime_history (discovery : Bool) (own : OctetStr) (boots made : ℤ) (es : List (TimeEvent × ℤ))
    {engineId : OctetStr} (hremote : engineId ≠ own.take maxLengthEngineId) (engineBoots engineTime now : ℤ) :
    ((timeRun discovery (.start own boots made) es).checkTime engineId engineBoots engineTime now).1 =
      History.answer (history discovery engineId es) engineBoots engineTime now := by
  have hlocal : (USMTimeTable.start own boots made).localEngineId ≠ engineId := hremote.symm
  have hstart : Tracks engineId (USMTimeTable.start own boots made) none := rfl
  obtain ⟨hsame, htracks⟩ := timeRun_tracks discovery hstart hlocal es
  exact htracks.answer (hsame ▸ hlocal) engineBoots engineTime now

/-- An engine that was discovered sent boots 1 and time 1000; a message of time 900 is 100 seconds old
when 50 more have passed, and not in the window when 51 have. -/
theorem checkTime_history_sample :
    (([1, 2] : OctetStr) ≠ ([9] : OctetStr).take maxLengthEngineId) ∧
      ((timeRun true (.start [9] 4 0) [(.checkEngineId [1, 2], 10), (.checkTime [1, 2] 1 1000, 20)]).checkTime
        [1, 2] 1 900 70).1 = .ok ∧
      ((timeRun true (.start [9] 4 0) [(.checkEngineId [1, 2], 10), (.checkTime [1, 2] 1 1000, 20)]).checkTime
        [1, 2] 1 900 71).1 = .notInTimeWindow := by
  have hremote : ([1, 2] : OctetStr) ≠ ([9] : OctetStr).take maxLengthEngineId := by decide
  refine ⟨hremote, ?_, ?_⟩
  · rw [checkTime_history true [9] 4 0 _ hremote 1 900 70]
    decide
  · rw [checkTime_history true [9] 4 0 _ hremote 1 900 71]
    decide

/-! ## A clock that does not go back -/

/-- Nothing in the history came behind the clock. -/
def History.Past (h : History) (now : ℤ) : Prop := h.known ≤ now ∧ ∀ m ∈ h.accepted, m.2 ≤ now

theorem History.Past.newest {h : History} {now : ℤ} (hpast : h.Past now) : h.newest.2 ≤ now := by
  rcases List.mem_cons.mp (newest_mem (stamp 0 0, h.known) h.accepted) with heq | hmem
  · rw [History.newest, heq]
    exact hpast.1
  · exact hpast.2 _ hmem

theorem History.accepted_accept (h : History) (engineBoots engineTime now : ℤ) :
    ∀ m ∈ h.accepted, m ∈ (h.accept engineBoots engineTime now).accepted := by
  intro m hm
  unfold History.accept
  split
  · exact hm
  · exact List.mem_append_left _ hm

theorem History.Past.accept {h : History} {now : ℤ} (hpast : h.Past now) (engineBoots engineTime : ℤ) {came : ℤ}
    (hcame : came ≤ now) : (h.accept engineBoots engineTime came).Past now := by
  unfold History.accept
  split
  · exact hpast
  · refine ⟨hpast.1, fun m hm => ?_⟩
    rcases List.mem_append.mp hm with hm | hm
    · exact hpast.2 m hm
    · rw [List.mem_singleton.mp hm]
      exact hcame

section clock
variable (discovery : Bool) (engineId : OctetStr) {now : ℤ}

/-- A step keeps what is accepted, and what it adds came with it. -/
theorem historyStep_some {h : History} {e : TimeEvent × ℤ} (hpast : h.Past now) (hcame : e.2 ≤ now) :
    ∃ h', historyStep discovery engineId (some h) e = some h' ∧ h'.Past now ∧ ∀ m ∈ h.accepted, m ∈ h'.accepted := by
  obtain ⟨e, came⟩ := e
  cases e with
  | checkEngineId named => exact ⟨h, rfl, hpast, fun _ hm => hm⟩
  | timeFor named => exact ⟨h, rfl, hpast, fun _ hm => hm⟩
  | checkTime named engineBoots engineTime =>
    simp only [historyStep]
    split
    · exact ⟨_, rfl, hpast.accept engineBoots engineTime hcame, h.accepted_accept engineBoots engineTime came⟩
    · exact ⟨h, rfl, hpast, fun _ hm => hm⟩

theorem historyStep_past {h : Option History} {e : TimeEvent × ℤ} (hpast : ∀ h' ∈ h, h'.Past now) (hcame : e.2 ≤ now) :
    ∀ h' ∈ historyStep discovery engineId h e, h'.Past now := by
  intro h' hh'
  cases h with
  | some h =>
    obtain ⟨h'', hstep, hpast', -⟩ := historyStep_some discovery engineId (hpast h rfl) hcame
    rw [hstep] at hh'
    exact Option.some.inj hh' ▸ hpast'
  | none =>
    have hfresh : History.Past ⟨e.2, []⟩ now := ⟨hcame, by simp⟩
    obtain ⟨e, came⟩ := e
    cases e with
    | checkTime named engineBoots engineTime => cases hh'
    | checkEngineId named =>
      simp only [historyStep] at hh'
      split at hh'
      · exact Option.some.inj hh' ▸ hfresh
      · cases hh'
    | timeFor named =>
      simp only [historyStep] at hh'
      split at hh'
      · exact Option.some.inj hh' ▸ hfresh
      · cases hh'

theorem history_past {es : List (TimeEvent × ℤ)} {h : Option History} (hpast : ∀ h' ∈ h, h'.Past now)
    (hcame : ∀ e ∈ es, e.2 ≤ now) : ∀ h' ∈ es.foldl (historyStep discovery engineId) h, h'.Past now := by
  induction es generalizing h with
  | nil => exact hpast
  | cons e es ih =>
    exact ih (historyStep_past discovery engineId hpast (hcame e List.mem_cons_self)) fun x hx => hcame x (List.mem_cons_of_mem _ hx)

theorem history_keeps {es : List (TimeEvent × ℤ)} {h : History} (hpast : h.Past now) (hcame : ∀ e ∈ es, e.2 ≤ now) :
    ∃ h', es.foldl (historyStep discovery engineId) (some h) = some h' ∧ h'.Past now ∧
      ∀ m ∈ h.accepted, m ∈ h'.accepted := by
  induction es generalizing h with
  | nil => exact ⟨h, rfl, hpast, fun _ hm => hm⟩
  | cons e es ih =>
    obtain ⟨h₁, hstep, hpast₁, hkeep₁⟩ := historyStep_some discovery engineId hpast (hcame e List.mem_cons_self)
    obtain ⟨h₂, hrun, hpast₂, hkeep₂⟩ := ih hpast₁ fun x hx => hcame x (List.mem_cons_of_mem _ hx)
    exact ⟨h₂, by rw [List.foldl_cons, hstep, hrun], hpast₂, fun m hm => hkeep₂ m (hkeep₁ m hm)⟩

end clock

theorem History.answer_ok {h : Option History} {engineBoots engineTime now : ℤ}
    (hok : History.answer h engineBoots engineTime now = .ok) :
    ∃ h', h = some h' ∧ ¬ h'.Outside engineBoots engineTime now := by
  cases h with
  | none => cases hok
  | some h =>
    refine ⟨h, rfl, fun hout => ?_⟩
    rw [History.answer, Option.elim_some, if_pos hout] at hok
    cases hok

/-- A message that is inside the window is not older than any accepted one by more than the window. -/
theorem History.Past.inside {h : History} {engineBoots engineTime now : ℤ} (hpast : h.Past now)
    (hinside : ¬ h.Outside engineBoots engineTime now) {m : Stamp × ℤ} (hm : m ∈ h.accepted) :
    m.1 ≤ stamp engineBoots (engineTime + 150) := by
  have hnewest : m.1 ≤ h.newest.1 := mem_le_newest _ hm
  have hage : 0 ≤ now - h.newest.2 := sub_nonneg.mpr hpast.newest
  refine hnewest.trans ?_
  rw [show h.newest.1 = stamp (ofLex h.newest.1).1 (ofLex h.newest.1).2 from rfl, stamp_le]
  unfold History.Outside at hinside
  omega

/-- As long as the clock does not go back, what is accepted from an engine comes in the order it was
sent, up to 150 seconds. -/
theorem accepted_in_order (discovery : Bool) (own : OctetStr) (boots made : ℤ) (es₁ es₂ : List (TimeEvent × ℤ))
    {engineId : OctetStr} (hremote : engineId ≠ own.take maxLengthEngineId) {b₁ T₁ now₁ b₂ T₂ now₂ : ℤ}
    (hclock : ∀ e ∈ es₁ ++ (.checkTime engineId b₁ T₁, now₁) :: es₂, e.2 ≤ now₂)
    (hfirst : ((timeRun discovery (.start own boots made) es₁).checkTime engineId b₁ T₁ now₁).1 = .ok)
    (hsecond : ((timeRun discovery (.start own boots made) (es₁ ++ (.checkTime engineId b₁ T₁, now₁) :: es₂)).checkTime
      engineId b₂ T₂ now₂).1 = .ok) :
    b₁ < b₂ ∨ (b₁ = b₂ ∧ T₁ ≤ T₂ + 150) := by
  have hlocal : (USMTimeTable.start own boots made).localEngineId ≠ engineId := hremote.symm
  have hstart : Tracks engineId (USMTimeTable.start own boots made) none := rfl
  -- both answers are those of the history
  obtain ⟨hsame₁, htracks₁⟩ := timeRun_tracks discovery hstart hlocal es₁
  obtain ⟨hsame₂, htracks₂⟩ := timeRun_tracks discovery hstart hlocal
    (es₁ ++ (.checkTime engineId b₁ T₁, now₁) :: es₂)
  rw [htracks₁.answer (hsame₁ ▸ hlocal)] at hfirst
  rw [htracks₂.answer (hsame₂ ▸ hlocal)] at hsecond
  obtain ⟨h₁, hh₁, hinside₁⟩ := History.answer_ok hfirst
  obtain ⟨h₂, hh₂, hinside₂⟩ := History.answer_ok hsecond
  -- the first message is in the history from its step on
  have hcame₁ : ∀ e ∈ es₁, e.2 ≤ now₂ := fun e he => hclock e (List.mem_append_left _ he)
  have hcame₂ : ∀ e ∈ es₂, e.2 ≤ now₂ := fun e he =>
    hclock e (List.mem_append_right _ (List.mem_cons_of_mem _ he))
  have hnow₁ : now₁ ≤ now₂ := hclock (.checkTime engineId b₁ T₁, now₁) (List.mem_append_right _ List.mem_cons_self)
  have hpast₁ : h₁.Past now₂ := history_past discovery engineId (h := none) (by simp) hcame₁ h₁ hh₁
  obtain ⟨h₃, hrun, hpast₃, hkeeps⟩ := history_keeps discovery engineId (hpast₁.accept b₁ T₁ hnow₁) hcame₂
  have hstep : historyStep discovery engineId (some h₁) (.checkTime engineId b₁ T₁, now₁) =
      some (h₁.accept b₁ T₁ now₁) := if_pos rfl
  rw [List.foldl_append, List.foldl_cons, hh₁, hstep, hrun] at hh₂
  obtain rfl := Option.some.inj hh₂
  have hmem : (stamp b₁ T₁, now₁) ∈ (h₁.accept b₁ T₁ now₁).accepted := by
    rw [History.accept, if_neg hinside₁]
    exact List.mem_append_right _ List.mem_cons_self
  exact stamp_le.mp (hpast₃.inside hinside₂ (hkeeps _ hmem))

/-- Boots 1 and time 1000 are accepted, and at the same moment so is the time 850. -/
theorem accepted_in_order_sample :
    ((timeRun true (.start [9] 4 0) [(.checkEngineId [1, 2], 10)]).checkTime [1, 2] 1 1000 20).1 = .ok ∧
    ((timeRun true (.start [9] 4 0) ([(.checkEngineId [1, 2], 10)] ++ (.checkTime [1, 2] 1 1000, 20) :: [])).checkTime
      [1, 2] 1 850 20).1 = .ok ∧
    ((1 : ℤ) < 1 ∨ ((1 : ℤ) = 1 ∧ (1000 : ℤ) ≤ 850 + 150)) := by
  have hremote : ([1, 2] : OctetStr) ≠ ([9] : OctetStr).take maxLengthEngineId := by decide
  have hclock : ∀ e ∈ [(TimeEvent.checkEngineId [1, 2], (10 : ℤ))] ++ (.checkTime [1, 2] 1 1000, 20) :: [],
      e.2 ≤ 20 := by decide
  have hfirst : ((timeRun true (.start [9] 4 0) [(.checkEngineId [1, 2], 10)]).checkTime [1, 2] 1 1000 20).1 = .ok := by
    decide
  have hsecond : ((timeRun true (.start [9] 4 0) ([(.checkEngineId [1, 2], 10)] ++
      (.checkTime [1, 2] 1 1000, 20) :: [])).checkTime [1, 2] 1 850 20).1 = .ok := by
    decide
  exact ⟨hfirst, hsecond, accepted_in_order true [9] 4 0 _ _ hremote hclock hfirst hsecond⟩

end SnmpB.Usm
