import SorobanExplorer.Lib.Ranked

/-!
# Events in time

Of the events up to a time the last one counts.  `asOf_eq_some_iff` tells it from the
others, and `asOf_eq_of_le` moves it along a stretch without events.
-/

namespace Timeline

open Ranked

variable {τ α : Type*} [LinearOrder τ]

/-- The last event up to a time. -/
def asOf (stamp : α → τ) (events : List α) (time : τ) : Option α :=
  (events.filter (stamp · ≤ time)).getLast?

variable {stamp : α → τ} {events : List α} {time later : τ} {e : α}

theorem asOf_eq_none_iff : asOf stamp events time = none ↔ ∀ e ∈ events, time < stamp e := by
  simp [asOf]

theorem mem_of_asOf (h : asOf stamp events time = some e) : e ∈ events ∧ stamp e ≤ time := by
  obtain ⟨hmem, hle⟩ := List.mem_filter.mp (List.mem_of_getLast? h)
  exact ⟨hmem, of_decide_eq_true hle⟩

theorem eq_of_time (h : Increasing stamp events) {a b : α} (ha : a ∈ events)
    (hb : b ∈ events) (htime : stamp a = stamp b) : a = b :=
  List.inj_on_of_nodup_map h.nodup ha hb htime

theorem asOf_eq_some_iff (h : Increasing stamp events) :
    asOf stamp events time = some e ↔
      (e ∈ events ∧ stamp e ≤ time) ∧ ∀ other ∈ events, stamp other ≤ time → stamp other ≤ stamp e := by
  have hnewest : ∀ last, asOf stamp events time = some last →
      ∀ other ∈ events, stamp other ≤ time → stamp other ≤ stamp last := by
    intro last hlast other hother hle
    obtain ⟨front, hfront⟩ := List.getLast?_eq_some_iff.mp hlast
    have hincreasing := h.sublist (List.filter_sublist (p := fun e => decide (stamp e ≤ time)))
    rw [hfront] at hincreasing
    have hmem : other ∈ front ++ [last] :=
      hfront ▸ List.mem_filter.mpr ⟨hother, decide_eq_true hle⟩
    rcases List.mem_append.mp hmem with hmem | hmem
    · exact ((List.pairwise_append.mp hincreasing).2.2 other hmem last List.mem_cons_self).le
    · exact (List.mem_singleton.mp hmem ▸ le_rfl)
  constructor
  · exact fun hlast => ⟨mem_of_asOf hlast, hnewest e hlast⟩
  · rintro ⟨⟨hmem, hle⟩, hdominates⟩
    cases hlast : asOf stamp events time with
    | none => exact absurd hle (not_le.mpr (asOf_eq_none_iff.mp hlast e hmem))
    | some last =>
        obtain ⟨hlastMem, hlastLe⟩ := mem_of_asOf hlast
        rw [eq_of_time h hlastMem hmem
          (le_antisymm (hdominates last hlastMem hlastLe) (hnewest last hlast e hmem hle))]

/-- Without an event in between, nothing changes. -/
theorem asOf_eq_of_le (h : Increasing stamp events) (hle : time ≤ later)
    (hquiet : ∀ e ∈ events, stamp e ≤ later → stamp e ≤ time) : asOf stamp events later = asOf stamp events time := by
  refine Option.ext fun e => ?_
  rw [asOf_eq_some_iff h, asOf_eq_some_iff h]
  constructor
  · exact fun ⟨⟨hmem, hlater⟩, hnewest⟩ =>
      ⟨⟨hmem, hquiet e hmem hlater⟩, fun other hother hle' =>
        hnewest other hother (hle'.trans hle)⟩
  · exact fun ⟨⟨hmem, htime⟩, hnewest⟩ =>
      ⟨⟨hmem, htime.trans hle⟩, fun other hother hlater =>
        hnewest other hother (hquiet other hother hlater)⟩

end Timeline
