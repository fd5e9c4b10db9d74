import Mathlib.Order.Lattice
import Mathlib.Order.Basic
import Mathlib.Tactic.Linarith

/-! # Times of the request queue

`msec` keeps milliseconds in the field meant for microseconds. On the times a clock can
show, its operators are those of the integers.
-/
namespace SnmpB.Transport

/-- `m_time`: the member `tv_usec` holds milliseconds. -/
structure Msec where
  sec : ℤ
  usec : ℤ
  deriving DecidableEq, Repr

/-- A `timeval`, with microseconds. -/
structure Timeval where
  tvSec : ℤ
  tvUsec : ℤ
  deriving DecidableEq, Repr

namespace Msec

def infinite : Msec := ⟨-1, 0⟩

def isInfinite (t : Msec) : Bool := t.sec == -1 && t.usec == 0

/-- `operator>`. -/
def greater (t1 t2 : Msec) : Bool :=
  if t2.isInfinite then false
  else if t1.isInfinite then true
  else decide (t1.sec > t2.sec) || (t1.sec == t2.sec && decide (t1.usec > t2.usec))

def timeval (millisec : ℤ) : Timeval := ⟨millisec.tdiv 1000, millisec.tmod 1000 * 1000⟩

/-- `operator+=(const timeval &)`. -/
def addTimeval (t : Msec) (t1 : Timeval) : Msec :=
  let tmpUsec := t1.tvUsec.tdiv 1000
  if t.isInfinite then t
  else
    let usec := t.usec + tmpUsec
    if usec ≥ 1000 then ⟨t.sec + usec.tdiv 1000 + t1.tvSec, usec.tmod 1000⟩
    else ⟨t.sec + t1.tvSec, usec⟩

/-- `operator-=(const timeval &)`. -/
def subTimeval (t : Msec) (t1 : Timeval) : Msec :=
  let tmpUsec := t1.tvUsec.tdiv 1000
  if t.isInfinite then t
  else if t.usec < tmpUsec then ⟨t.sec - 1 - t1.tvSec, t.usec + 1000 - tmpUsec⟩
  else ⟨t.sec - t1.tvSec, t.usec - tmpUsec⟩

/-- `operator+=(const long)`. -/
def add (t : Msec) (millisec : ℤ) : Msec := t.addTimeval (timeval millisec)

/-- `operator-=(const long)`. -/
def sub (t : Msec) (millisec : ℤ) : Msec := t.subTimeval (timeval millisec)

/-- `operator unsigned long`, of times that are not before the epoch. -/
def ms (t : Msec) : ℤ := t.sec * 1000 + t.usec

def maxAlarm : ℤ := 1000000000

def getDelta (t future : Msec) : Timeval :=
  if future.isInfinite then ⟨maxAlarm, 0⟩
  else if future.greater t then
    if future.usec < t.usec then ⟨future.sec - 1 - t.sec, (future.usec + 1000 - t.usec) * 1000⟩
    else ⟨future.sec - t.sec, (future.usec - t.usec) * 1000⟩
  else ⟨0, 0⟩

/-- What a clock shows. -/
def Finite (t : Msec) : Prop := 0 ≤ t.sec ∧ 0 ≤ t.usec ∧ t.usec < 1000

instance (t : Msec) : Decidable t.Finite := by
  unfold Finite
  infer_instance

theorem Finite.isInfinite {t : Msec} (h : t.Finite) : t.isInfinite = false := by
  obtain ⟨hsec, -, -⟩ := h
  have hne : t.sec ≠ -1 := by omega
  simp [Msec.isInfinite, hne]

theorem isInfinite_infinite : infinite.isInfinite = true := by decide

theorem Finite.greater_iff {t1 t2 : Msec} (h1 : t1.Finite) (h2 : t2.Finite) :
    t1.greater t2 = true ↔ t2.ms < t1.ms := by
  rw [greater, if_neg (by simp [h2.isInfinite]), if_neg (by simp [h1.isInfinite])]
  obtain ⟨-, hlow1, hhigh1⟩ := h1
  obtain ⟨-, hlow2, hhigh2⟩ := h2
  simp only [Bool.or_eq_true, Bool.and_eq_true, decide_eq_true_eq, beq_iff_eq, ms]
  omega

theorem ms_injective {t1 t2 : Msec} (h1 : t1.Finite) (h2 : t2.Finite) (h : t1.ms = t2.ms) : t1 = t2 := by
  obtain ⟨-, hlow1, hhigh1⟩ := h1
  obtain ⟨-, hlow2, hhigh2⟩ := h2
  obtain ⟨sec1, usec1⟩ := t1
  obtain ⟨sec2, usec2⟩ := t2
  simp only [ms] at h hlow1 hhigh1 hlow2 hhigh2
  obtain rfl : sec1 = sec2 := by omega
  obtain rfl : usec1 = usec2 := by omega
  rfl

theorem timeval_eq {k : ℤ} (hk : 0 ≤ k) : timeval k = ⟨k / 1000, k % 1000 * 1000⟩ := by
  rw [timeval, Int.tdiv_eq_ediv_of_nonneg hk, Int.tmod_eq_emod_of_nonneg hk]

theorem tmpUsec_eq {k : ℤ} (hk : 0 ≤ k) : (timeval k).tvUsec.tdiv 1000 = k % 1000 := by
  rw [timeval_eq hk]
  exact Int.mul_tdiv_cancel _ (by decide)

/-- Adding carries exactly. -/
theorem Finite.add {t : Msec} (h : t.Finite) {k : ℤ} (hk : 0 ≤ k) :
    (t.add k).Finite ∧ (t.add k).ms = t.ms + k := by
  have hinfinite := h.isInfinite
  obtain ⟨hsec, hlow, hhigh⟩ := h
  have hmod : 0 ≤ k % 1000 ∧ k % 1000 < 1000 := by omega
  rw [Msec.add, addTimeval, tmpUsec_eq hk, timeval_eq hk, if_neg (by simp [hinfinite])]
  dsimp only
  split
  case isTrue hcarry =>
    rw [Int.tdiv_eq_ediv_of_nonneg (by omega), Int.tmod_eq_emod_of_nonneg (by omega)]
    simp only [Finite, ms]
    omega
  case isFalse hcarry =>
    simp only [Finite, ms]
    omega

/-- Subtracting borrows exactly, down to the epoch. -/
theorem Finite.sub {t : Msec} (h : t.Finite) {k : ℤ} (hk : 0 ≤ k) (hle : k ≤ t.ms) :
    (t.sub k).Finite ∧ (t.sub k).ms = t.ms - k := by
  have hinfinite := h.isInfinite
  obtain ⟨hsec, hlow, hhigh⟩ := h
  have hmod : 0 ≤ k % 1000 ∧ k % 1000 < 1000 := by omega
  rw [Msec.sub, subTimeval, tmpUsec_eq hk, timeval_eq hk, if_neg (by simp [hinfinite])]
  simp only [ms] at hle ⊢
  split
  · simp only [Finite]
    omega
  · simp only [Finite]
    omega

/-- The time to wait, in microseconds: nothing for a time that has passed. -/
theorem Finite.getDelta {t future : Msec} (h : t.Finite) (hfuture : future.Finite) :
    (t.getDelta future).tvSec * 1000000 + (t.getDelta future).tvUsec = max 0 (future.ms - t.ms) * 1000 ∧
      0 ≤ (t.getDelta future).tvUsec ∧ (t.getDelta future).tvUsec < 1000000 := by
  have hgreater := hfuture.greater_iff h
  rw [Msec.getDelta, if_neg (by simp [hfuture.isInfinite])]
  obtain ⟨-, hlow, hhigh⟩ := h
  obtain ⟨-, hlow', hhigh'⟩ := hfuture
  simp only [ms] at hgreater ⊢
  split
  case isTrue hlater =>
    have hlater := hgreater.mp hlater
    split <;> (dsimp only; omega)
  case isFalse hlater =>
    have hlater := mt hgreater.mpr hlater
    dsimp only
    omega

end Msec

/-- The reading of a clock. -/
abbrev Instant := {t : Msec // t.Finite}

namespace Instant

instance : LinearOrder Instant :=
  LinearOrder.lift' (fun t => t.val.ms) fun t1 t2 h => Subtype.ext (Msec.ms_injective t1.property t2.property h)

theorem le_iff {t1 t2 : Instant} : t1 ≤ t2 ↔ t1.val.ms ≤ t2.val.ms := Iff.rfl

theorem lt_iff {t1 t2 : Instant} : t1 < t2 ↔ t1.val.ms < t2.val.ms := by
  rw [← not_le, ← not_le]
  exact not_congr le_iff

/-- `operator>` in the comparisons of the queue. -/
theorem greater_iff {t1 t2 : Instant} : t1.val.greater t2.val = true ↔ t2 < t1 := by
  rw [lt_iff]
  exact t1.property.greater_iff t2.property

/-- `m_sendTime += timeout * 10`, of a timeout in hundredths of seconds. -/
def later (t : Instant) (timeout : ℕ) : Instant :=
  ⟨t.val.add ((timeout : ℤ) * 10), (t.property.add (by positivity)).1⟩

theorem later_ms (t : Instant) (timeout : ℕ) : (t.later timeout).val.ms = t.val.ms + timeout * 10 :=
  (t.property.add (by positivity)).2

theorem lt_later (t : Instant) {timeout : ℕ} (h : 0 < timeout) : t < t.later timeout := by
  rw [lt_iff, later_ms]
  omega

end Instant

end SnmpB.Transport
