import TaskScript.Document.Event
import TaskScript.Proofs.Document.Values

/-!
# `Proofs.Document.Events`: what is read back of an event

The details of an event may be any document. A reader takes them in canonical form, and it takes `null` for no
details at all, so not every event is read back as it was: `TaskEvent.asRead` is what is read instead. The order of
the members does not matter to it, because a document has the same canonical form in every arrangement.

## Contents
- `TaskEvent.asRead`, `TaskEvent.readsAs_asRead`: **what is read back of an event**.
- `TaskEvent.asRead_eq_self_iff`, `TaskEvent.readsAs`: which events are read back as they were.
-/

namespace TaskScript

open Json

namespace TaskEvent

/-- Details as they are read: in canonical form, and none off `null`. -/
def detailsAsRead : Option Json → Option Json
  | none | some .null => none
  | some d => some d.canonical

/-- The event that is read off the document of an event. -/
def asRead (e : TaskEvent) : TaskEvent :=
  { e with details := detailsAsRead e.details }

theorem readsAs_details {details : Option Json} (h : ∀ d, details = some d → d.IsProper) :
    (details.getD .null).ReadsAs (toOption? details?) (detailsAsRead details) := by
  rcases details with _ | d
  · exact .scalar rfl rfl
  by_cases hnull : d = .null
  · rw [hnull]
    exact .scalar rfl rfl
  have hproper := h d rfl
  refine ⟨hproper, fun j hj => ?_⟩
  have hrearranged : Rearranged d j := hj
  have hread : details? j = some d.canonical := by
    rw [details?, if_pos hrearranged.isReadable, hrearranged.canonical_eq hproper]
  have hasRead : detailsAsRead (some d) = some d.canonical := by
    cases d with
    | null => exact absurd rfl hnull
    | _ => rfl
  have hj : j ≠ .null := by
    rintro rfl
    exact hnull hrearranged.eq_null
  rw [toOption?_of_ne_null hj, hread, hasRead]
  rfl

/-- **What is read back of an event**, as long as its details are proper. -/
theorem readsAs_asRead (e : TaskEvent) (h : ∀ d, e.details = some d → d.IsProper) :
    e.toJson.ReadsAs ofJson? e.asRead := by
  have number (n : UInt64) : (Json.ofUInt64 n).ReadsAs toUInt64? n := .scalar rfl (toUInt64?_ofUInt64 n)
  have hname : (Json.str e.taskName).ReadsAs toString? e.taskName := .scalar rfl rfl
  have hactor := ReadsAs.ofOption rfl ActorId.readsAs e.actor
  have htype : (Json.str e.type.label).ReadsAs EventType.ofJson? e.type :=
    .scalar rfl (by cases e.type <;> rfl)
  refine (Always.record (by simp) (.cons (number e.tick) (.cons (number e.sequence) (.cons e.task.readsAs
    (.cons hname (.cons hactor (.cons htype (.cons (readsAs_details h) .nil)))))))).mono ?_
  rintro j ⟨_, ⟨_, _, rfl, htick, _, _, rfl, hsequence, _, _, rfl, htask, _, _, rfl, hname, _, _, rfl, hactor,
    _, _, rfl, htype, _, _, rfl, hdetails, rfl⟩, hrecord⟩
  simp [ofJson?, hrecord, Field.lookup?, asRead, htick, hsequence, htask, hname, hactor, htype, hdetails]

/-- An event is read back as it was exactly if its details are in canonical form and not `null`. -/
theorem asRead_eq_self_iff {e : TaskEvent} :
    e.asRead = e ↔ ∀ d, e.details = some d → d ≠ .null ∧ d.canonical = d := by
  obtain ⟨tick, sequence, task, taskName, actor, type, details⟩ := e
  cases details with
  | none => simp [asRead, detailsAsRead]
  | some d => cases d <;> simp [asRead, detailsAsRead]

theorem readsAs (e : TaskEvent) (h : ∀ d, e.details = some d → d ≠ .null ∧ d.IsCanonical) :
    e.toJson.ReadsAs ofJson? e := by
  have hread := e.readsAs_asRead fun d hd => (h d hd).2.proper
  rwa [asRead_eq_self_iff.mpr fun d hd => ⟨(h d hd).1, (h d hd).2.canonical⟩] at hread

end TaskEvent

end TaskScript
