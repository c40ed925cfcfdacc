import Mathlib
import Timeshare.Proofs.Scheduler.Labels

/-!
# Labels

Two people ask for the same under other names, for other users and with other priorities, one in one
simulation and one in another. Request by request their schedulers come to the same but for these
labels (`Scheduler.stages_alike`). So the simulations give the same replies, go through the same
states and leave the same records but for the labels (`unaffected_by_labels`): a priority, for one,
is written down and never looked at.
-/

namespace Timeshare

namespace Simulation

variable {σ τ : Type}

/-- The same request but for the labels, made when images read the same. -/
structure Visit.Alike (v v' : Visit) : Prop where
  load : v.load = v'.load
  request : v.request.unlabelled = v'.request.unlabelled

def Stage.unlabelled (stage : Stage) : Stage where
  reply := stage.reply
  scheduler := stage.scheduler.unlabelled
  offered := stage.offered.map Record.unlabelled

end Simulation

open Simulation

theorem Scheduler.stages_cons {s : Scheduler} {visit : Visit} {t : Traced (Reply × Scheduler)}
    (answer : s.perform visit.load visit.request = some t) (rest : List Visit) :
    s.stages (visit :: rest) = (t.value.2.stages rest).map fun x =>
      (x.1, ⟨t.value.1, t.value.2, Event.records t.events⟩ :: x.2) := by
  simp only [stages, answer, Option.bind_eq_bind, Option.bind_some]
  cases t.value.2.stages rest <;> rfl

/-- Alike requests lead through the same stages, the labels aside, or get stuck together. -/
theorem Scheduler.stages_alike {visits visits' : List Visit}
    (alike : List.Forall₂ Visit.Alike visits visits') {s s' : Scheduler}
    (same : s.unlabelled = s'.unlabelled) :
    (s.stages visits).map (fun x => (x.1.unlabelled, x.2.map Stage.unlabelled)) =
      (s'.stages visits').map fun x => (x.1.unlabelled, x.2.map Stage.unlabelled) := by
  -- The labels differ from the first request on, so the induction is for two schedulers.
  induction alike generalizing s s' with
  | nil => exact congrArg (fun s => some (s, [])) same
  | @cons visit visit' rest rest' first others ih =>
    have answers := perform_alike same visit.load first.request
    cases here : s.perform visit.load visit.request with
    | none =>
      rw [here, Option.map_none, eq_comm, Option.map_eq_none_iff, first.load] at answers
      rw [stages, stages, here, answers]
      rfl
    | some t =>
      rw [here, Option.map_some, eq_comm, Option.map_eq_some_iff, first.load] at answers
      obtain ⟨t', there, answered⟩ := answers
      simp only [Scheduler.answered, Traced.unlabelled, Prod.mk.injEq, Traced.mk.injEq] at answered
      obtain ⟨reply, left, events⟩ := answered
      have records : (Event.records t'.events).map Record.unlabelled =
          (Event.records t.events).map Record.unlabelled := by
        rw [← Event.records_unlabelled, ← Event.records_unlabelled, events]
      have head : Stage.unlabelled ⟨t'.value.1, t'.value.2, Event.records t'.events⟩ =
          Stage.unlabelled ⟨t.value.1, t.value.2, Event.records t.events⟩ := by
        simp only [Stage.unlabelled, reply, left, records]
      have tail := congrArg (Option.map (Prod.map id (List.cons
        (Stage.unlabelled ⟨t.value.1, t.value.2, Event.records t.events⟩)))) (ih left.symm)
      rw [Option.map_map, Option.map_map] at tail
      rw [stages_cons here, stages_cons there, Option.map_map, Option.map_map]
      simp only [Function.comp_def, List.map_cons, head]
      exact tail

namespace Simulation

variable {σ τ : Type}

/-- After two requests the same is the case, the labels aside. -/
structure Stage.Agrees (a b : Stage) : Prop where
  reply : a.reply = b.reply
  running : a.scheduler.running = b.scheduler.running
  admission : a.scheduler.admission = b.scheduler.admission
  ready : a.scheduler.ready = b.scheduler.ready
  quiescent : a.scheduler.isQuiescent = b.scheduler.isQuiescent
  process : ∀ id, (a.scheduler.process? id).map Process.unlabelled =
    (b.scheduler.process? id).map Process.unlabelled
  offered : a.offered.map Record.unlabelled = b.offered.map Record.unlabelled
  endings : a.offered.map (fun r => (r.status.id, r.ending)) =
    b.offered.map fun r => (r.status.id, r.ending)

theorem Stage.agrees_of_unlabelled {a b : Stage} (same : a.unlabelled = b.unlabelled) :
    a.Agrees b := by
  simp only [unlabelled, mk.injEq, Scheduler.unlabelled, Scheduler.mk.injEq] at same
  obtain ⟨reply, ⟨-, table, admission, ready, running⟩, offered⟩ := same
  constructor
  case reply => exact reply
  case running => exact running
  case admission => exact admission
  case ready => exact ready
  case quiescent => simp only [Scheduler.isQuiescent, running, admission, ready]
  case process =>
    intro id
    rw [Scheduler.process?, Scheduler.process?, ← Table.get?_unlabelled, table,
      Table.get?_unlabelled]
  case offered => exact offered
  case endings =>
    have endings := congrArg (List.map fun r => (r.status.id, r.ending)) offered
    rw [List.map_map, List.map_map] at endings
    exact endings

theorem Stage.forall₂_agrees {as bs : List Stage}
    (same : as.map Stage.unlabelled = bs.map Stage.unlabelled) :
    List.Forall₂ Stage.Agrees as bs := by
  rw [← List.forall₂_eq_eq_eq, List.forall₂_map_left_iff, List.forall₂_map_right_iff] at same
  exact same.imp fun _ _ => agrees_of_unlabelled

theorem Stage.flatMap_offered_unlabelled (stages : List Stage) :
    (stages.map unlabelled).flatMap offered = (stages.flatMap offered).map Record.unlabelled := by
  rw [List.flatMap_map, List.map_flatMap]
  rfl

/-- What shows without labels of some stages is the same for alike requests. -/
theorem Stage.map_stages_alike {α : Type} {f g : Scheduler × List Stage → α}
    (blind : ∀ x, f x = g (x.1.unlabelled, x.2.map Stage.unlabelled)) {visits visits' : List Visit}
    (alike : List.Forall₂ Visit.Alike visits visits') (s : Scheduler) :
    (s.stages visits).map f = (s.stages visits').map f := by
  have stages := congrArg (Option.map g) (Scheduler.stages_alike alike (Eq.refl s.unlabelled))
  rw [Option.map_map, Option.map_map] at stages
  rw [funext blind]
  exact stages

/-- With other labels a simulation does the same, the labels aside, even with another host. -/
structure LabelsAside (host : Host σ) (other : Host τ) (scheduler : Scheduler) (world : σ)
    (world' : τ) : Prop where
  /-- The requests lead through the same stages, the labels aside, or both simulations get stuck. -/
  attended : ∀ visits visits', List.Forall₂ Visit.Alike visits visits' →
    (attendAll host ⟨scheduler, world⟩ visits).map (fun x => x.2.map Stage.unlabelled) =
      (attendAll other ⟨scheduler, world'⟩ visits').map fun x => x.2.map Stage.unlabelled
  /-- So after every request there has been the same reply, and the same is the case. -/
  agrees : ∀ visits visits', List.Forall₂ Visit.Alike visits visits' → ∀ after stages,
    attendAll host ⟨scheduler, world⟩ visits = some (after, stages) → ∃ after' stages',
      attendAll other ⟨scheduler, world'⟩ visits' = some (after', stages') ∧
        List.Forall₂ Stage.Agrees stages stages'
  /-- Stores that take everything have the same records in the end, the labels aside. -/
  stored : ∀ {store refuses store' refuses'}, host.Stores store refuses →
    other.Stores store' refuses' → (∀ name, refuses world name = false) →
    (∀ name, refuses' world' name = false) → store world = [] → store' world' = [] →
    ∀ visits visits', List.Forall₂ Visit.Alike visits visits' →
      (attendAll host ⟨scheduler, world⟩ visits).map
          (fun x => (store x.1.world).map Record.unlabelled) =
        (attendAll other ⟨scheduler, world'⟩ visits').map
          fun x => (store' x.1.world).map Record.unlabelled
  /-- The program does the same too if it reads the same images in both worlds. -/
  performed : (∀ world r, host.load (host.keep world r).1 = host.load world) →
    (∀ world r, other.load (other.keep world r).1 = other.load world) →
    host.load world = other.load world' → ∀ requests requests',
      requests.map Request.unlabelled = requests'.map Request.unlabelled →
      (performAll host ⟨scheduler, world⟩ requests).map (fun x =>
          (x.1.scheduler.unlabelled, x.2.1, (Output.records x.2.2).map Record.unlabelled)) =
        (performAll other ⟨scheduler, world'⟩ requests').map fun x =>
          (x.1.scheduler.unlabelled, x.2.1, (Output.records x.2.2).map Record.unlabelled)

theorem Visit.forall₂_alike (load : String → Except Fault (List UInt8))
    {requests requests' : List Request}
    (same : requests.map Request.unlabelled = requests'.map Request.unlabelled) :
    List.Forall₂ Alike (requests.map (mk load)) (requests'.map (mk load)) := by
  rw [← List.forall₂_eq_eq_eq, List.forall₂_map_left_iff, List.forall₂_map_right_iff] at same
  rw [List.forall₂_map_left_iff, List.forall₂_map_right_iff]
  exact same.imp fun _ _ same => ⟨rfl, same⟩

theorem attendAll_alike (host : Host σ) (other : Host τ) (scheduler : Scheduler) (world : σ)
    (world' : τ) {visits visits' : List Visit} (alike : List.Forall₂ Visit.Alike visits visits') :
    (attendAll host ⟨scheduler, world⟩ visits).map (fun x => x.2.map Stage.unlabelled) =
      (attendAll other ⟨scheduler, world'⟩ visits').map fun x => x.2.map Stage.unlabelled := by
  rw [attendAll_eq, attendAll_eq, Option.map_map, Option.map_map]
  exact Stage.map_stages_alike (g := Prod.snd) (fun _ => rfl) alike scheduler

theorem performAll_unlabelled {host : Host σ}
    (apart : ∀ world r, host.load (host.keep world r).1 = host.load world) (s : Simulation σ)
    (requests : List Request) :
    (s.performAll host requests).map (fun x =>
        (x.1.scheduler.unlabelled, x.2.1, (Output.records x.2.2).map Record.unlabelled)) =
      (s.scheduler.stages (requests.map (Visit.mk (host.load s.world)))).map fun x =>
        (x.1.unlabelled, x.2.map Stage.reply,
          (x.2.flatMap Stage.offered).map Record.unlabelled) := by
  have whole := congrArg (Option.map fun x =>
    (x.1.scheduler.unlabelled, x.2.1, x.2.2.map Record.unlabelled)) (performAll_eq apart s requests)
  rw [Option.map_map, Option.map_map] at whole
  exact whole

/-- Nothing that a simulation does hangs on labels. -/
theorem unaffected_by_labels (host : Host σ) (other : Host τ) (scheduler : Scheduler) (world : σ)
    (world' : τ) : LabelsAside host other scheduler world world' := by
  constructor
  case attended => exact fun _ _ alike => attendAll_alike host other scheduler world world' alike
  case agrees =>
    intro visits visits' alike after stages answers
    have same := attendAll_alike host other scheduler world world' alike
    rw [answers, Option.map_some, eq_comm, Option.map_eq_some_iff] at same
    obtain ⟨⟨after', stages'⟩, answers', unlabelled⟩ := same
    exact ⟨after', stages', answers', Stage.forall₂_agrees unlabelled.symm⟩
  case stored =>
    intro store refuses store' refuses' stores stores' takes takes' empty empty' visits visits'
      alike
    have offered := Stage.map_stages_alike
      (f := fun x => (x.2.flatMap Stage.offered).map Record.unlabelled)
      (g := fun x => x.2.flatMap Stage.offered)
      (fun x => (Stage.flatMap_offered_unlabelled x.2).symm) alike scheduler
    simpa [attendAll_eq, Function.comp_def, stores.store_keepAll, stores'.store_keepAll, empty,
      empty', takes, takes'] using offered
  case performed =>
    intro apart apart' same requests requests' alike
    rw [performAll_unlabelled apart, performAll_unlabelled apart', same]
    refine Stage.map_stages_alike
      (g := fun x => (x.1, x.2.map Stage.reply, x.2.flatMap Stage.offered)) (fun x => ?_)
      (Visit.forall₂_alike _ alike) scheduler
    rw [Stage.flatMap_offered_unlabelled, List.map_map]
    rfl

/-- The same requests from other people, who take other things to be urgent and have other names for
them. One submission is refused, one process is killed and two come to their ends by themselves. -/
theorem unaffected_by_other_people :
    let archive : Archive := { images := [("loop", .ok Scheduler.loopImage)] }
    let scheduler := Scheduler.init { slice := 2, maxReady := 2 }
    let requests : List Request := [.submit 1 .low 9 "loop", .submit 1 .high 9 "absent",
      .submitImage ⟨1, .normal, 2, "a", Scheduler.loopImage⟩, .tick,
      .submitImage ⟨7, .high, 4, "b", []⟩, .kill 0, .runAll]
    let requests' : List Request := [.submit 2 .high 9 "loop", .submit 0 .low 9 "absent",
      .submitImage ⟨-3, .high, 2, "c", Scheduler.loopImage⟩, .tick,
      .submitImage ⟨4, .low, 4, "a", []⟩, .kill 0, .runAll]
    let visits := requests.map (Visit.mk archive.image)
    let visits' := requests'.map (Visit.mk archive.image)
    (attendAll Archive.host ⟨scheduler, archive⟩ visits).map (fun x =>
        x.1.world.records.map fun r => (r.status.id, r.status.user, r.status.name)) =
      some [(0, 1, "loop"), (1, 1, "a"), (2, 7, "b")] ∧
    (attendAll Archive.host ⟨scheduler, archive⟩ visits').map (fun x =>
        x.1.world.records.map fun r => (r.status.id, r.status.user, r.status.name)) =
      some [(0, 2, "loop"), (1, -3, "c"), (2, 4, "a")] ∧
    LabelsAside Archive.host Archive.host scheduler archive archive ∧
    (attendAll Archive.host ⟨scheduler, archive⟩ visits).map (fun x => x.2.map Stage.unlabelled) =
      (attendAll Archive.host ⟨scheduler, archive⟩ visits').map
        (fun x => x.2.map Stage.unlabelled) ∧
    (attendAll Archive.host ⟨scheduler, archive⟩ visits).map
        (fun x => x.1.world.records.map Record.unlabelled) =
      (attendAll Archive.host ⟨scheduler, archive⟩ visits').map
        (fun x => x.1.world.records.map Record.unlabelled) ∧
    (performAll Archive.host ⟨scheduler, archive⟩ requests).map (fun x =>
        (x.1.scheduler.unlabelled, x.2.1, (Output.records x.2.2).map Record.unlabelled)) =
      (performAll Archive.host ⟨scheduler, archive⟩ requests').map fun x =>
        (x.1.scheduler.unlabelled, x.2.1, (Output.records x.2.2).map Record.unlabelled) := by
  intro archive scheduler requests requests' visits visits'
  have same := unaffected_by_labels Archive.host Archive.host scheduler archive archive
  have alike : List.Forall₂ Visit.Alike visits visits' := Visit.forall₂_alike _ rfl
  exact ⟨by decide, by decide, same, same.attended visits visits' alike,
    same.stored Archive.stores Archive.stores (fun _ => rfl) (fun _ => rfl) rfl rfl visits visits'
      alike,
    same.performed Archive.image_collect Archive.image_collect rfl requests requests' rfl⟩

end Simulation

end Timeshare
