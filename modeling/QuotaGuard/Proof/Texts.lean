import QuotaGuard.Proof.Calendar
import QuotaGuard.Service.Texts
import Mathlib.Data.String.Basic

/-!
# What the texts say

A timestamp says its second and comes in the order of time as a text. The body of a warning says what was
frozen, and a stream of log lines says its records, whatever texts they hold.
-/

namespace QuotaGuard

open Gregorian

/-! ### The order of timestamps -/

theorem dateOf_before {days days' : Int} (h : days < days') : (dateOf days).Before (dateOf days') := by
  induction days', h using Int.leInduction with
  | base => exact dateOf_succ days ▸ (dateOf days).before_next
  | succ days' hle ih => exact ih.trans (dateOf_succ days' ▸ (dateOf days').before_next)

/-- The seconds with a year of at most four digits. -/
def FourDigits (sec : Int) : Prop :=
  0 ≤ (dateOf (sec / 86400)).year ∧ (dateOf (sec / 86400)).year ≤ 9999

instance (sec : Int) : Decidable (FourDigits sec) := inferInstanceAs (Decidable (_ ∧ _))

variable {sec sec' : Int}

theorem clockFields_eq (sec : Int) :
    clockFields sec = [(dateOf (sec / 86400)).year.toNat, (dateOf (sec / 86400)).month.toNat,
      (dateOf (sec / 86400)).day.toNat, (sec % 86400 / 3600).toNat, (sec % 86400 / 60 % 60).toNat,
      (sec % 86400 % 60).toNat] := rfl

theorem day_le (days : Int) : (dateOf days).day ≤ 31 := by
  have hlength : monthLength (dateOf days).year (dateOf days).month ≤ 31 := by
    unfold monthLength
    split_ifs <;> decide
  exact (dateOf_spec days).1.day.2.trans hlength

theorem fits_clockFields (h : FourDigits sec) (last : Char) :
    Text.Fits (isoShape last) (clockFields sec) := by
  obtain ⟨hyear, hyear'⟩ := h
  have hmonth := (dateOf_spec (sec / 86400)).1.month
  have hday := day_le (sec / 86400)
  have hpositive := (dateOf_spec (sec / 86400)).1.day.1
  rw [clockFields_eq]
  refine .cons ?_ (.cons ?_ (.cons ?_ (.cons ?_ (.cons ?_ (.cons ?_ .nil))))) <;>
    exact ⟨Nat.succ_pos _, by dsimp only; omega⟩

/-- The hour, the minute and the second of two times of the day. -/
theorem time_lt_iff (t t' : Int) (ht : 0 ≤ t) (ht' : 0 ≤ t') :
    [(t / 3600).toNat, (t / 60 % 60).toNat, (t % 60).toNat] <
      [(t' / 3600).toNat, (t' / 60 % 60).toNat, (t' % 60).toNat] ↔ t < t' := by
  simp only [List.cons_lt_cons_iff, List.not_lt_nil, and_false, or_false]
  omega

theorem date_lt_of_before {d d' : Date} (hyear : 0 ≤ d.year) (hvalid : d.Valid) (hvalid' : d'.Valid)
    (h : d.Before d') (time time' : List Nat) :
    d.year.toNat :: d.month.toNat :: d.day.toNat :: time <
        d'.year.toNat :: d'.month.toNat :: d'.day.toNat :: time' ∧
      ¬ d'.year.toNat :: d'.month.toNat :: d'.day.toNat :: time' <
        d.year.toNat :: d.month.toNat :: d.day.toNat :: time := by
  obtain ⟨hmonth, hday⟩ := hvalid
  obtain ⟨hmonth', hday'⟩ := hvalid'
  simp only [List.cons_lt_cons_iff]
  rcases h with hlt | ⟨heq, hlt | ⟨heq', hlt⟩⟩
  · constructor <;> omega
  · constructor <;> omega
  · constructor <;> omega

/-- The fields, from the year on, are in the order of time. -/
theorem clockFields_lt_iff (h : FourDigits sec) (h' : FourDigits sec') :
    clockFields sec < clockFields sec' ↔ sec < sec' := by
  have hvalid := (dateOf_spec (sec / 86400)).1
  have hvalid' := (dateOf_spec (sec' / 86400)).1
  rw [clockFields_eq, clockFields_eq]
  rcases lt_trichotomy (sec / 86400) (sec' / 86400) with hlt | heq | hgt
  · exact iff_of_true (date_lt_of_before h.1 hvalid hvalid' (dateOf_before hlt) _ _).1 (by omega)
  · have htime := time_lt_iff (sec % 86400) (sec' % 86400) (by omega) (by omega)
    simp only [heq, List.cons_lt_cons_iff, lt_irrefl, false_or, true_and] at htime ⊢
    rw [htime]
    omega
  · exact iff_of_false (date_lt_of_before h'.1 hvalid' hvalid (dateOf_before hgt) _ _).2 (by omega)

theorem toIsoUtc_lt_iff {a b : ℚ} (ha : FourDigits ⌊a⌋) (hb : FourDigits ⌊b⌋) :
    toIsoUtc a < toIsoUtc b ↔ ⌊a⌋ < ⌊b⌋ := by
  rw [String.lt_iff_toList_lt, toIsoUtc, toIsoUtc, String.toList_ofList, String.toList_ofList,
    Text.fields_lt_iff (fits_clockFields ha 'Z') (fits_clockFields hb 'Z'), clockFields_lt_iff ha hb]

/-- **Timestamps are in the order of time**, and one of them is the text of one second. -/
theorem timestamps_ordered {a b : ℚ} (ha : FourDigits ⌊a⌋) (hb : FourDigits ⌊b⌋) :
    (toIsoUtc a < toIsoUtc b ↔ ⌊a⌋ < ⌊b⌋) ∧ (toIsoUtc a = toIsoUtc b ↔ ⌊a⌋ = ⌊b⌋) := by
  refine ⟨toIsoUtc_lt_iff ha hb, fun hsame => ?_, fun hsame => by rw [toIsoUtc, hsame, toIsoUtc]⟩
  have hlt := toIsoUtc_lt_iff ha hb
  have hgt := toIsoUtc_lt_iff hb ha
  rw [hsame] at hlt hgt
  have hirrefl : ¬ toIsoUtc b < toIsoUtc b := String.lt_irrefl _
  exact le_antisymm (not_lt.mp fun h => hirrefl (hgt.mpr h)) (not_lt.mp fun h => hirrefl (hlt.mpr h))

theorem timestamps_ordered_sample :
    toIsoUtc (3 / 2) < toIsoUtc 86400 ∧ toIsoUtc (3 / 2) = toIsoUtc 1 := by
  have hfour : FourDigits ⌊(3 / 2 : ℚ)⌋ := by decide +kernel
  have hday : FourDigits ⌊(86400 : ℚ)⌋ := by decide +kernel
  have hone : FourDigits ⌊(1 : ℚ)⌋ := by decide +kernel
  exact ⟨(timestamps_ordered hfour hday).1.mpr (by decide +kernel),
    (timestamps_ordered hfour hone).2.mpr (by decide +kernel)⟩

/-! ### The body of a warning -/

/-- What is left of a payload in its body: the seconds of its time. -/
def Payload.frozen (p : Payload) : Payload := { p with sentAt := ⌊p.sentAt⌋ }

theorem Payload.members_frozen (p : Payload) : p.frozen.members = p.members := by
  rw [members, members, frozen, toIsoUtc, toIsoUtc, Int.floor_intCast]

/-- The members say every field. -/
theorem Payload.frozen_eq {p q : Payload} (hp : FourDigits ⌊p.sentAt⌋) (hq : FourDigits ⌊q.sentAt⌋)
    (h : p.members = q.members) : p.frozen = q.frozen := by
  have hsent : toIsoUtc p.sentAt = toIsoUtc q.sentAt := by
    simp only [members, List.cons.injEq, Prod.mk.injEq, Json.Value.string.injEq] at h
    simp only [h]
  have hseconds := (timestamps_ordered hp hq).2.mp hsent
  obtain ⟨keyId, keyName, plan, month, used, quota, thresholdPct, sentAt⟩ := p
  obtain ⟨keyId', keyName', plan', month', used', quota', thresholdPct', sentAt'⟩ := q
  simp only [members, List.cons.injEq, Prod.mk.injEq, Json.Value.string.injEq, Json.Value.number.injEq,
    true_and, and_true] at h
  obtain ⟨rfl, rfl, rfl, rfl, hused, hquota, hthreshold, -⟩ := h
  simp only [frozen, Json.Number.ofInt_injective hused, Json.Number.ofInt_injective hquota,
    Json.Number.ofInt_injective hthreshold, hseconds]

theorem read_buildPayload (p : Payload) : Json.read (buildPayload p).toList = some p.members := by
  rw [buildPayload, String.toList_ofList, Json.read_dump]

/-- **The body of a warning says the warning.** It is one line of ASCII and an object with the fields of
the payload, each once, and two payloads have one body only if they are the same to the second. -/
theorem payload_frozen {p q : Payload} (hp : FourDigits ⌊p.sentAt⌋) (hq : FourDigits ⌊q.sentAt⌋) :
    (∀ c ∈ (buildPayload p).toList, Json.IsPrintable c) ∧
      Json.read (buildPayload p).toList = some p.members ∧ (p.members.map Prod.fst).Nodup ∧
      (buildPayload p = buildPayload q ↔ p.frozen = q.frozen) := by
  refine ⟨fun c hc => ?_, read_buildPayload p, ?_, fun hsame => ?_, fun hsame => ?_⟩
  · rw [buildPayload, String.toList_ofList] at hc
    exact Json.isPrintable_dump hc
  · change ["event", "key_id", "key_name", "plan", "month", "used", "quota", "threshold_pct",
      "sent_at"].Nodup
    decide
  · have hread := read_buildPayload p
    rw [hsame, read_buildPayload q, Option.some.injEq] at hread
    exact Payload.frozen_eq hp hq hread.symm
  · rw [buildPayload, buildPayload, ← p.members_frozen, hsame, q.members_frozen]

/-- A name with quotes, a newline and a character outside the basic plane. -/
def sampleSpoken : Payload where
  keyId := "qg_sample"
  keyName := "a\"b\n🔑"
  plan := "free"
  month := "1970-01"
  used := 3
  quota := 4
  thresholdPct := 75
  sentAt := 3 / 2

theorem payload_frozen_sample :
    Json.read (buildPayload sampleSpoken).toList = some sampleSpoken.members ∧
      buildPayload sampleSpoken = buildPayload { sampleSpoken with sentAt := 1 } := by
  have hfour : FourDigits ⌊sampleSpoken.sentAt⌋ := by decide +kernel
  have hone : FourDigits ⌊({ sampleSpoken with sentAt := 1 } : Payload).sentAt⌋ := by decide +kernel
  obtain ⟨-, hread, -, hsame⟩ := payload_frozen hfour hone
  exact ⟨hread, hsame.mpr (by decide +kernel)⟩

/-! ### Log lines -/

/-- The names a line may have, in their order. -/
def logNames : List String :=
  ["timestamp", "level", "logger", "message"] ++ ["request_id"] ++
    (contextFields.filter (· ≠ .requestId)).map ContextField.name ++ ["exception"]

theorem members_sublist (context : Option String) (record : LogRecord) :
    List.Sublist ((record.members context).map Prod.fst) logNames := by
  have hoption : ∀ (name : String) (value : Option String),
      List.Sublist (((value.map fun text => (name, Json.Value.string text)).toList).map Prod.fst)
        [name] := by
    intro name value
    cases value with
    | none => exact List.nil_sublist _
    | some text => exact List.Sublist.refl _
  have hfields : ∀ fields : List ContextField, List.Sublist
      ((fields.filterMap fun field => (record.extra field).map fun value => (field.name, value)).map
        Prod.fst) (fields.map ContextField.name) := by
    intro fields
    induction fields with
    | nil => exact List.Sublist.refl _
    | cons field fields ih =>
        cases hextra : record.extra field with
        | none =>
            rw [List.filterMap_cons_none (by rw [hextra]; rfl)]
            exact ih.cons _
        | some value =>
            rw [List.filterMap_cons_some (b := (field.name, value)) (by rw [hextra]; rfl)]
            exact ih.cons_cons _
  simp only [LogRecord.members, List.map_append]
  exact (((List.Sublist.refl _).append (hoption _ _)).append (hfields _)).append (hoption _ _)

/-- No member of a line hides another. -/
theorem members_nodup (context : Option String) (record : LogRecord) :
    ((record.members context).map Prod.fst).Nodup :=
  List.Nodup.sublist (members_sublist context record) (by decide)

theorem newline_notMem_format (context : Option String) (record : LogRecord) :
    '\n' ∉ (record.format context).toList := by
  intro hmem
  rw [LogRecord.format, String.toList_ofList] at hmem
  exact absurd (Json.isPrintable_dump hmem) (by decide)

theorem splitOn_logStream (records : List (Option String × LogRecord)) :
    (logStream records).splitOn '\n' =
      records.map (fun record => (record.2.format record.1).toList) ++ [[]] := by
  induction records with
  | nil => rfl
  | cons record records ih =>
      rw [logStream, List.flatMap_cons, List.append_assoc, List.singleton_append,
        List.splitOn_append_cons_self_of_not_mem (newline_notMem_format record.1 record.2),
        ← logStream, ih]
      rfl

/-- **A log is its records.** Whatever texts the records hold, the lines of a log are as many objects,
each with the members of its record, once each. -/
theorem log_decodes (records : List (Option String × LogRecord)) :
    readLog (logStream records) = some (records.map fun record => record.2.members record.1) ∧
      ∀ record ∈ records, ((record.2.members record.1).map Prod.fst).Nodup := by
  refine ⟨?_, fun record _ => members_nodup record.1 record.2⟩
  rw [readLog, splitOn_logStream, List.dropLast_concat]
  induction records with
  | nil => rfl
  | cons record records ih =>
      rw [List.map_cons, List.mapM_cons, ih, LogRecord.format, String.toList_ofList, Json.read_dump]
      rfl

end QuotaGuard
