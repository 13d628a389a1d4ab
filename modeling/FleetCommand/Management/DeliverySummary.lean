import FleetCommand.Management.Reporting
import Mathlib.Data.List.Forall2

/-!
# The management service: delivery summaries

`ReportingService.getDeliverySummary` over the in-memory history repository. A summary counts the
entries into each terminal status whose time is not outside the range, and a timestamp that does not
parse is outside no range. So the summaries of the pieces that a range is cut into add up to the
summary of the range, but for the undated entries, which every piece counts (`summaries_add_up`).
-/

set_option autoImplicit false

namespace FleetCommand.Management

/-- A status transition of a delivery; from no status when it was created. -/
structure DeliveryStatusHistoryEntry where
  id : String
  deliveryId : String
  fromStatus : Option DeliveryStatus
  toStatus : DeliveryStatus
  reason : Option String
  occurredAt : String

/-- The stored entries, in the order of insertion. -/
abbrev DeliveryStatusHistoryRepository := List DeliveryStatusHistoryEntry

/-- How many deliveries ended in each terminal status. -/
structure DeliverySummary where
  completed : ℕ
  failed : ℕ
  cancelled : ℕ

variable (dateParse : String → Option ℤ)

/-- `t < fromMs || t > toMs`, false of `NaN`. -/
def isOutside (fromMs toMs : ℤ) : Option ℤ → Bool
  | some t => t < fromMs || t > toMs
  | none => false

/-- One turn of the loop over the entries. -/
def countEntry (fromMs toMs : ℤ) (summary : DeliverySummary) (entry : DeliveryStatusHistoryEntry) :
    DeliverySummary :=
  if entry.toStatus ∉ terminalDeliveryStatuses then summary
  else if isOutside fromMs toMs (dateParse entry.occurredAt) then summary
  else match entry.toStatus with
    | .completed => { summary with completed := summary.completed + 1 }
    | .failed => { summary with failed := summary.failed + 1 }
    | .cancelled => { summary with cancelled := summary.cancelled + 1 }
    | _ => summary

/-- The counts of the entries of all deliveries, for a well-formed range. -/
def getDeliverySummary (history : DeliveryStatusHistoryRepository) (range : TimeRange) :
    Except Thrown DeliverySummary := do
  let (fromMs, toMs) ← parseRange dateParse range
  return history.foldl (countEntry dateParse fromMs toMs) ⟨0, 0, 0⟩

/-! ## Summaries -/

/-- The entries into a status. -/
def DeliverySummary.count (summary : DeliverySummary) : DeliveryStatus → ℕ
  | .completed => summary.completed
  | .failed => summary.failed
  | .cancelled => summary.cancelled
  | _ => 0

/-- The entries into a status that are not outside the range. -/
def entriesWithin (history : DeliveryStatusHistoryRepository) (status : DeliveryStatus)
    (fromMs toMs : ℤ) : ℕ :=
  history.countP fun e => e.toStatus = status && !isOutside fromMs toMs (dateParse e.occurredAt)

/-- The entries into a status whose timestamp does not parse. -/
def undated (history : DeliveryStatusHistoryRepository) (status : DeliveryStatus) : ℕ :=
  history.countP fun e => e.toStatus = status && (dateParse e.occurredAt).isNone

variable {dateParse}

/-- A turn counts the entry under its status, when that is terminal. -/
theorem count_countEntry {status : DeliveryStatus} (hstatus : status ∈ terminalDeliveryStatuses)
    (fromMs toMs : ℤ) (summary : DeliverySummary) (e : DeliveryStatusHistoryEntry) :
    (countEntry dateParse fromMs toMs summary e).count status = summary.count status +
      if e.toStatus = status && !isOutside fromMs toMs (dateParse e.occurredAt) then 1 else 0 := by
  obtain ⟨id, deliveryId, fromStatus, toStatus, reason, occurredAt⟩ := e
  rw [countEntry]
  dsimp only
  by_cases hterminal : toStatus ∈ terminalDeliveryStatuses
  · rw [if_neg (not_not.2 hterminal)]
    cases hout : isOutside fromMs toMs (dateParse occurredAt) with
    | true => simp
    | false =>
      simp only [terminalDeliveryStatuses, List.mem_cons, List.not_mem_nil, or_false]
        at hstatus hterminal
      rcases hstatus with rfl | rfl | rfl <;> rcases hterminal with rfl | rfl | rfl <;> rfl
  · have hne : toStatus ≠ status := fun h => hterminal (h ▸ hstatus)
    rw [if_pos hterminal]
    simp [hne]

theorem count_summary {status : DeliveryStatus} (hstatus : status ∈ terminalDeliveryStatuses)
    (fromMs toMs : ℤ) (history : DeliveryStatusHistoryRepository) (summary : DeliverySummary) :
    (history.foldl (countEntry dateParse fromMs toMs) summary).count status =
      summary.count status + entriesWithin dateParse history status fromMs toMs := by
  induction history generalizing summary with
  | nil => rfl
  | cons e history ih =>
    rw [List.foldl_cons, ih, count_countEntry hstatus, entriesWithin, entriesWithin,
      List.countP_cons]
    omega

theorem parseRange_ok {range : TimeRange} {fromMs toMs : ℤ}
    (h : parseRange dateParse range = .ok (fromMs, toMs)) : fromMs ≤ toMs := by
  rw [parseRange] at h
  split at h
  · split at h
    · exact absurd h (by simp)
    next hle =>
      obtain ⟨rfl, rfl⟩ := Prod.mk.inj (Except.ok.inj h)
      exact not_lt.1 hle
  · exact absurd h (by simp)

variable (dateParse)

/-- The ranges follow one another to the millisecond, from the first time to the last. -/
inductive CutInto (toMs : ℤ) : ℤ → List TimeRange → Prop where
  | last {range : TimeRange} {fromMs : ℤ} :
    parseRange dateParse range = .ok (fromMs, toMs) → CutInto toMs fromMs [range]
  | cons {range : TimeRange} {fromMs midMs : ℤ} {ranges : List TimeRange} :
    parseRange dateParse range = .ok (fromMs, midMs) → CutInto toMs (midMs + 1) ranges →
      CutInto toMs fromMs (range :: ranges)

variable {dateParse}

theorem CutInto.le {fromMs toMs : ℤ} {ranges : List TimeRange}
    (h : CutInto dateParse toMs fromMs ranges) : fromMs ≤ toMs := by
  induction h with
  | last hrange => exact parseRange_ok hrange
  | cons hrange _ ih =>
    have := parseRange_ok hrange
    omega

/-- An entry in a range is in one of the two pieces; an undated one is in both. -/
theorem entriesWithin_split (history : DeliveryStatusHistoryRepository) (status : DeliveryStatus)
    {fromMs midMs toMs : ℤ} (hmid : fromMs ≤ midMs) (hto : midMs + 1 ≤ toMs) :
    entriesWithin dateParse history status fromMs midMs +
        entriesWithin dateParse history status (midMs + 1) toMs =
      entriesWithin dateParse history status fromMs toMs + undated dateParse history status := by
  induction history with
  | nil => rfl
  | cons e history ih =>
    simp only [entriesWithin, undated, List.countP_cons] at ih ⊢
    have hentry : ((if (e.toStatus = status && !isOutside fromMs midMs (dateParse e.occurredAt)) then
          1 else 0) + if (e.toStatus = status && !isOutside (midMs + 1) toMs
          (dateParse e.occurredAt)) then 1 else 0) =
        (if (e.toStatus = status && !isOutside fromMs toMs (dateParse e.occurredAt)) then
          1 else 0) + if (e.toStatus = status && (dateParse e.occurredAt).isNone) then 1 else 0 := by
      cases dateParse e.occurredAt with
      | none => simp [isOutside]
      | some time =>
        by_cases hstatus : e.toStatus = status
        · simp only [hstatus, isOutside, decide_true, Bool.true_and, Bool.not_eq_true',
            Bool.or_eq_false_iff, decide_eq_false_iff_not, not_lt, Option.isNone_some,
            Bool.false_eq_true, if_false, add_zero]
          split_ifs <;> omega
        · simp [hstatus]
    omega

theorem CutInto.ne_nil {fromMs toMs : ℤ} {ranges : List TimeRange}
    (h : CutInto dateParse toMs fromMs ranges) : ranges ≠ [] := by
  cases h <;> exact List.cons_ne_nil _ _

theorem getDeliverySummary_of_range (history : DeliveryStatusHistoryRepository) {range : TimeRange}
    {fromMs toMs : ℤ} (h : parseRange dateParse range = .ok (fromMs, toMs)) :
    ∃ summary, getDeliverySummary dateParse history range = .ok summary ∧
      ∀ status ∈ terminalDeliveryStatuses,
        summary.count status = entriesWithin dateParse history status fromMs toMs := by
  refine ⟨history.foldl (countEntry dateParse fromMs toMs) ⟨0, 0, 0⟩, ?_, fun status hstatus => ?_⟩
  · rw [getDeliverySummary, h]
    rfl
  · have hempty : (⟨0, 0, 0⟩ : DeliverySummary).count status = 0 := by cases status <;> rfl
    rw [count_summary hstatus, hempty, Nat.zero_add]

/-- However a range is cut, the summaries of the pieces are there, and count every entry of the
range once and every undated entry once a piece. -/
theorem CutInto.summaries {fromMs toMs : ℤ} {ranges : List TimeRange}
    (h : CutInto dateParse toMs fromMs ranges) (history : DeliveryStatusHistoryRepository) :
    ∃ summaries : List DeliverySummary,
      List.Forall₂ (fun range s => getDeliverySummary dateParse history range = .ok s)
        ranges summaries ∧
      ∀ status ∈ terminalDeliveryStatuses, (summaries.map fun s => s.count status).sum =
        entriesWithin dateParse history status fromMs toMs +
          (ranges.length - 1) * undated dateParse history status := by
  induction h with
  | last hrange =>
    obtain ⟨summary, hsummary, hcount⟩ := getDeliverySummary_of_range history hrange
    refine ⟨[summary], .cons hsummary .nil, fun status hstatus => ?_⟩
    simp [hcount status hstatus]
  | @cons range fromMs midMs ranges hrange hrest ih =>
    obtain ⟨summary, hsummary, hcount⟩ := getDeliverySummary_of_range history hrange
    obtain ⟨summaries, hsummaries, hsum⟩ := ih
    refine ⟨summary :: summaries, .cons hsummary hsummaries, fun status hstatus => ?_⟩
    have hsplit : entriesWithin dateParse history status fromMs midMs + _ =
        _ + undated dateParse history status :=
      entriesWithin_split history status (parseRange_ok hrange) hrest.le
    have hpieces : ranges.length - 1 + 1 = ranges.length :=
      Nat.succ_pred_eq_of_pos (List.length_pos_iff.2 hrest.ne_nil)
    calc ((summary :: summaries).map fun s => s.count status).sum
      _ = summary.count status + (summaries.map fun s => s.count status).sum := by
        rw [List.map_cons, List.sum_cons]
      _ = entriesWithin dateParse history status fromMs toMs +
          (ranges.length - 1 + 1) * undated dateParse history status := by
        rw [hcount status hstatus, hsum status hstatus, ← add_assoc, hsplit, Nat.succ_mul]
        omega
      _ = _ := by
        rw [hpieces, List.length_cons, Nat.add_sub_cancel]

/-- The summaries of the pieces a range is cut into add up to its own; only an entry whose timestamp
does not parse is counted again by every further piece. -/
theorem summaries_add_up (history : DeliveryStatusHistoryRepository) {whole : TimeRange}
    {fromMs toMs : ℤ} (hwhole : parseRange dateParse whole = .ok (fromMs, toMs))
    {ranges : List TimeRange} (hcut : CutInto dateParse toMs fromMs ranges) :
    ∃ total summaries, getDeliverySummary dateParse history whole = .ok total ∧
      List.Forall₂ (fun range s => getDeliverySummary dateParse history range = .ok s)
        ranges summaries ∧
      ∀ status ∈ terminalDeliveryStatuses, (summaries.map fun s => s.count status).sum =
        total.count status + (ranges.length - 1) * undated dateParse history status := by
  obtain ⟨total, htotal, hcount⟩ := getDeliverySummary_of_range history hwhole
  obtain ⟨summaries, hsummaries, hsum⟩ := hcut.summaries history
  refine ⟨total, summaries, htotal, hsummaries, fun status hstatus => ?_⟩
  rw [hsum status hstatus, hcount status hstatus]

/-! ## A day in two halves -/

/-- The hours of a day, in milliseconds. -/
def parseHour (s : String) : Option ℤ :=
  if s = "00:00" then some 0
  else if s = "11:59" then some 43199999
  else if s = "12:00" then some 43200000
  else if s = "23:59" then some 86399999
  else none

/-- A completion at noon, a failure with no legible time. -/
def dayHistory : DeliveryStatusHistoryRepository :=
  [⟨"1", "p", some .arrived, .completed, none, "12:00"⟩,
    ⟨"2", "q", some .inTransit, .failed, some "r", "noonish"⟩]

/-- Each half of the day counts the failure. -/
theorem dayHistory_adds_up : ∃ total summaries,
    getDeliverySummary parseHour dayHistory ⟨"00:00", "23:59"⟩ = .ok total ∧
    List.Forall₂ (fun range s => getDeliverySummary parseHour dayHistory range = .ok s)
      [⟨"00:00", "11:59"⟩, ⟨"12:00", "23:59"⟩] summaries ∧
    ∀ status ∈ terminalDeliveryStatuses, (summaries.map fun s => s.count status).sum =
      total.count status + (2 - 1) * undated parseHour dayHistory status := by
  have hday : parseRange parseHour ⟨"00:00", "23:59"⟩ = .ok (0, 86399999) := by decide
  have hafternoon : parseRange parseHour ⟨"12:00", "23:59"⟩ = .ok (43200000, 86399999) := by decide
  have hmorning : parseRange parseHour ⟨"00:00", "11:59"⟩ = .ok (0, 43199999) := by decide
  exact summaries_add_up dayHistory hday (.cons hmorning (.last hafternoon))

end FleetCommand.Management
