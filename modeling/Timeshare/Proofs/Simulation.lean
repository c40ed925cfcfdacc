import Mathlib
import Timeshare.Simulation
import Timeshare.Proofs.Scheduler.History

/-!
# What a world is offered

A simulation announces every record of its scheduler among its output, and its world is offered
exactly these, in order (`records_settle`, `world_settle`). So what is said about the records among
the events of a run holds of what comes out of a simulation, whatever the world makes of it.
-/

namespace Timeshare

/-- The records that some output announces, in order. -/
def Output.records (outputs : List Output) : List Record := outputs.filterMap record?

namespace Output

@[simp] theorem records_nil : records [] = [] := rfl

@[simp] theorem records_append (a b : List Output) : records (a ++ b) = records a ++ records b :=
  List.filterMap_append

theorem records_events (events : List Event) :
    records (Event.outputs events) = Event.records events := by
  rw [records, Event.outputs, List.filterMap_map]
  rfl

end Output

namespace Host

variable {σ : Type} (host : Host σ)

/-- The world after some records were offered to it, one after another. -/
def keepAll (world : σ) (records : List Record) : σ :=
  records.foldl (fun world r => (host.keep world r).1) world

theorem keepAll_append (world : σ) (a b : List Record) :
    host.keepAll world (a ++ b) = host.keepAll (host.keepAll world a) b := List.foldl_append

theorem settle_go_eq (world : σ) (outputs past : List Output) :
    settle.go host world outputs past =
      ((host.settle world outputs).1, past.reverse ++ (host.settle world outputs).2) := by
  induction outputs generalizing world past with
  | nil => simp [settle, settle.go]
  | cons output rest ih =>
    simp only [settle, settle.go, List.reverseAux_eq]
    rw [ih _ (_ ++ past), ih _ (_ ++ [])]
    simp only [List.reverse_append, List.reverse_reverse, List.reverse_nil, List.nil_append,
      List.append_assoc]

/-- Output is settled one piece after another. -/
theorem settle_cons (world : σ) (output : Output) (rest : List Output) :
    host.settle world (output :: rest) =
      ((host.settle (host.settleOne world output).1 rest).1,
        (host.settleOne world output).2 ++
          (host.settle (host.settleOne world output).1 rest).2) := by
  change settle.go host (host.settleOne world output).1 rest
    (List.reverseAux (host.settleOne world output).2 []) = _
  rw [settle_go_eq, List.reverseAux_eq, List.append_nil, List.reverse_reverse]

theorem settleOne_eq (world : σ) (output : Output) :
    Output.records (host.settleOne world output).2 = output.record?.toList ∧
      (host.settleOne world output).1 = host.keepAll world output.record?.toList := by
  unfold settleOne
  cases carried : output.record? with
  | none => simp [Output.records, keepAll, carried]
  | some r =>
    have losses : Output.records (r.lossNotices (host.keep world r).2) = [] := by
      cases (host.keep world r).2 <;> rfl
    have own : Output.records [output] = [r] := by simp [Output.records, carried]
    refine ⟨?_, rfl⟩
    change Output.records (r.lossNotices (host.keep world r).2 ++ [output]) = [r]
    rw [Output.records_append, losses, own, List.nil_append]

/-- Notes of losses are no records. -/
theorem records_settle (world : σ) (outputs : List Output) :
    Output.records (host.settle world outputs).2 = Output.records outputs := by
  induction outputs generalizing world with
  | nil => rfl
  | cons output rest ih =>
    rw [settle_cons, Output.records_append, ih, (host.settleOne_eq world output).1]
    cases carried : output.record? <;> simp [Output.records, carried]

/-- The world is offered the records and nothing else. -/
theorem world_settle (world : σ) (outputs : List Output) :
    (host.settle world outputs).1 = host.keepAll world (Output.records outputs) := by
  induction outputs generalizing world with
  | nil => rfl
  | cons output rest ih =>
    rw [settle_cons, ih, (host.settleOne_eq world output).2, ← keepAll_append]
    cases carried : output.record? <;> simp [Output.records, carried]

/-- Without records there is nothing to settle. -/
theorem settle_of_quiet (world : σ) {outputs : List Output} (quiet : Output.records outputs = []) :
    host.settle world outputs = (world, outputs) := by
  induction outputs with
  | nil => rfl
  | cons output rest ih =>
    rw [Output.records, List.filterMap_cons] at quiet
    cases carried : output.record? with
    | some r => simp [carried] at quiet
    | none =>
      rw [carried] at quiet
      have one : host.settleOne world output = (world, [output]) := by simp [settleOne, carried]
      rw [settle_cons, one, ih quiet]
      rfl

end Host

namespace Simulation

variable {σ : Type} {host : Host σ} {s : Simulation σ}

/-- What a simulation makes of the answer of its scheduler. -/
theorem performAll_cons {request : Request} {rest : List Request} {t : Traced (Reply × Scheduler)}
    {after : Simulation σ} {replies : List Reply} {outputs : List Output}
    (answer : s.scheduler.perform (host.load s.world) request = some t)
    (later : (⟨t.value.2, (host.settle s.world (Event.outputs t.events)).1⟩ :
      Simulation σ).performAll host rest = some (after, replies, outputs)) :
    s.performAll host (request :: rest) = some (after, t.value.1 :: replies,
      (host.settle s.world (Event.outputs t.events)).2 ++ outputs) := by
  simp [performAll, perform, answer, later]

end Simulation

/-- A simulation goes through a run, whatever the world, and the world is offered the records of
that run. -/
theorem Scheduler.Run.performAll {σ : Type} {host : Host σ} {config : Config}
    {granted : List Submission} {events : List Event} {requests : List Request}
    {before after : Simulation σ} {replies : List Reply} {outputs : List Output}
    (h : Run config granted events before.scheduler)
    (answers : before.performAll host requests = some (after, replies, outputs)) :
    ∃ further later, Run config (granted ++ further) (events ++ later) after.scheduler ∧
      Output.records outputs = Event.records later ∧
      after.world = host.keepAll before.world (Event.records later) := by
  induction requests generalizing before granted events replies outputs with
  | nil =>
    cases Option.some.inj answers
    exact ⟨[], [], by simpa using h, rfl, rfl⟩
  | cons request rest ih =>
    simp only [Simulation.performAll, Option.bind_eq_bind, Option.bind_eq_some_iff] at answers
    obtain ⟨⟨s, reply, outs⟩, first, ⟨t, replies', outs'⟩, others, heq⟩ := answers
    cases Option.some.inj heq
    simp only [Simulation.perform, Option.map_eq_some_iff] at first
    obtain ⟨answer, hanswer, heq⟩ := first
    cases heq
    obtain ⟨further, later, run, announced, offered⟩ := ih (h.serve _ request hanswer) others
    refine ⟨_, answer.events ++ later, by simpa only [List.append_assoc] using run, ?_, ?_⟩
    · rw [Output.records_append, host.records_settle, Output.records_events, announced,
        Event.records_append]
    · rw [offered, host.world_settle, Output.records_events, Event.records_append,
        host.keepAll_append]

end Timeshare
