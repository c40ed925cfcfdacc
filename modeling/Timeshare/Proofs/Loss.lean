import Mathlib
import Timeshare.Proofs.Simulation
import Timeshare.Proofs.Scheduler.Placement
import Timeshare.Storage.Archive

/-!
# Lost records

A simulation lets its scheduler carry out a request and settles the events with its host after that.
This module also runs a simulation with the host beside it all the time (`attend`): when a process
ends, be it in the middle of a slice, of a tick or of the loop of ticks, the host is offered the
record there and then, and only when it has taken or refused it does anything else take place. Both
ways come to the same (`attend_eq_perform`), since settling follows the order of the events
(`follow_bind`). What the host makes of the records shows in its own world only:
`unaffected_by_losses` compares a simulation with another one whose host is a different one.
-/

namespace Timeshare

/-! ## Settling in parts -/

theorem Event.outputs_append (es fs : List Event) :
    outputs (es ++ fs) = outputs es ++ outputs fs := List.map_append

namespace Host

variable {σ : Type} (host : Host σ)

theorem settle_append (world : σ) (a b : List Output) :
    host.settle world (a ++ b) =
      ((host.settle (host.settle world a).1 b).1,
        (host.settle world a).2 ++ (host.settle (host.settle world a).1 b).2) := by
  induction a generalizing world with
  | nil => rfl
  | cons output rest ih => simp only [List.cons_append, settle_cons, ih, List.append_assoc]

end Host

namespace Scheduler

/-- The events that the loop of ticks has seen so far come before those that it still sees. -/
theorem runWithin_eq_map (limit : Nat) (s : Scheduler) (past : List Event) :
    runWithin limit s past =
      (runWithin limit s []).map fun t => ⟨t.value, past.reverse ++ t.events⟩ := by
  induction limit generalizing s past with
  | zero =>
    simp only [runWithin]
    split <;> simp
  | succ limit ih =>
    simp only [runWithin]
    split
    · simp
    · rw [ih, ih s.tick.value (s.tick.events.reverseAux []), Option.map_map]
      congr 1
      funext t
      simp [List.reverseAux_eq]

theorem runWithin_succ {s : Scheduler} (busy : ¬ s.isQuiescent = true) (limit : Nat) :
    runWithin (limit + 1) s [] =
      (runWithin limit s.tick.value []).map fun t => ⟨t.value, s.tick.events ++ t.events⟩ := by
  rw [runWithin, if_neg busy, runWithin_eq_map]
  simp [List.reverseAux_eq]

end Scheduler

namespace Simulation

variable {σ τ : Type}

/-! ## The host beside the scheduler -/

/-- Something that takes place, and what is said of it. -/
abbrev Act (σ : Type) := Simulation σ → Simulation σ × List Output

/-- One act behind another. -/
def proceed (x : Simulation σ × List Output) (act : Act σ) : Simulation σ × List Output :=
  ((act x.1).1, x.2 ++ (act x.1).2)

/-- Something that takes place in the scheduler while the host has nothing to do. -/
def quietly (f : Scheduler → Traced Scheduler) : Act σ := fun s =>
  (⟨(f s.scheduler).value, s.world⟩, Event.outputs (f s.scheduler).events)

/-- A process ends. The host is offered the record first, and whether it takes it or not, the
process is gone. -/
def depart (host : Host σ) (p : Process) (ending : Ending) : Act σ := fun s =>
  let record : Record := ⟨p.status, ending⟩
  let (world, fault) := host.keep s.world record
  (⟨s.scheduler.without p, world⟩,
    record.lossNotices fault ++ [.log (.event (.terminated record))])

/-- At most so many instructions of a process, one after another until it ends. -/
def instructions (host : Host σ) (id : ProcessId) : Nat → Act σ
  | 0 => fun s => (s, [])
  | limit + 1 => fun s =>
    match s.scheduler.table.get? id with
    | none => (s, [])
    | some p =>
      let stepped : Simulation σ × List Output :=
        (⟨s.scheduler.advance id p.step, s.world⟩, [.log (.event (.executed id p.upcoming))])
      match p.verdict with
      | some ending => proceed stepped (depart host p.step ending)
      | none => proceed stepped (instructions host id limit)

def tick (host : Host σ) : Act σ := fun s =>
  let seated := quietly Scheduler.seated s
  match seated.1.scheduler.running with
  | none => seated
  | some id =>
    let served := proceed seated (instructions host id seated.1.scheduler.config.slice)
    proceed (proceed served (quietly Scheduler.requeue)) (quietly Scheduler.dispatch)

/-- At most so many ticks, until nothing is left; nothing when that is too few. -/
def ticksWithin (host : Host σ) : Nat → Simulation σ → Option (Simulation σ × List Output)
  | 0, s => if s.scheduler.isQuiescent then some (s, []) else none
  | limit + 1, s =>
    if s.scheduler.isQuiescent then some (s, [])
    else (ticksWithin host limit (tick host s).1).map fun x => (x.1, (tick host s).2 ++ x.2)

/-- Carries out a request with the host beside the scheduler. There is no answer if it never comes
to an end. Nobody ends when a process is created. -/
def attend (host : Host σ) (s : Simulation σ) :
    Request → Option (Simulation σ × Reply × List Output)
  | .kill id =>
    match s.scheduler.lookup id with
    | .error refusal => some (s, .refused refusal, [])
    | .ok p => some ((depart host p .killed s).1, .done, (depart host p .killed s).2)
  | .tick => some ((tick host s).1, .done, (tick host s).2)
  | .runAll => (ticksWithin host s.scheduler.tickLimit s).map fun x => (x.1, .done, x.2)
  | request => s.perform host request

/-! ## Both ways come to the same -/

/-- What comes of a computation whose events are settled after it. -/
def follow (host : Host σ) (world : σ) (t : Traced Scheduler) : Simulation σ × List Output :=
  (⟨t.value, (host.settle world (Event.outputs t.events)).1⟩,
    (host.settle world (Event.outputs t.events)).2)

section

variable {host : Host σ} {s : Simulation σ} {id : ProcessId} {p : Process}

/-- Events may be settled when all is over or in between. -/
theorem follow_bind (host : Host σ) (world : σ) (t : Traced Scheduler)
    (f : Scheduler → Traced Scheduler) :
    follow host world (t >>= f) =
      proceed (follow host world t) fun s => follow host s.world (f s.scheduler) := by
  simp only [follow, proceed, Traced.value_bind, Traced.events_bind, Event.outputs_append,
    host.settle_append]

theorem quietly_eq_follow {f : Scheduler → Traced Scheduler}
    (passages : ∀ e ∈ (f s.scheduler).events, e.IsPassage) :
    quietly f s = follow host s.world (f s.scheduler) := by
  have quiet := (Output.records_events _).trans (Event.records_of_passages passages)
  rw [quietly, follow, host.settle_of_quiet s.world quiet]

theorem depart_eq_follow (host : Host σ) (s : Simulation σ) (p : Process) (ending : Ending) :
    depart host p ending s = follow host s.world (s.scheduler.terminate p ending) := by
  rw [Scheduler.terminate_eq, follow]
  simp only [Event.outputs, List.map_cons, List.map_nil, host.settle_cons]
  simp [depart, Host.settleOne, Output.record?, Event.record?, Host.settle, Host.settle.go]

/-- A slice is the same, whether the host hears of it instruction by instruction or as a whole. -/
theorem instructions_eq_follow (limit : Nat) (found : s.scheduler.table.get? id = some p) :
    instructions host id limit s =
      follow host s.world (s.scheduler.afterSlice id (p.slice limit)) := by
  induction limit generalizing s p with
  | zero =>
    rw [Process.slice_zero, instructions, Scheduler.afterSlice]
    simp [follow, Event.outputs, Host.settle, Host.settle.go, Scheduler.advance_self found]
  | succ limit ih =>
    have first : follow host s.world
        ⟨s.scheduler.advance id p.step, [.executed id p.upcoming]⟩ =
          (⟨s.scheduler.advance id p.step, s.world⟩, [.log (.event (.executed id p.upcoming))]) :=
      rfl
    rw [Scheduler.afterSlice_succ, follow_bind, first, instructions]
    simp only [found]
    cases p.verdict with
    | some ending => simp only [proceed, depart_eq_follow]
    | none =>
      have stepped := Scheduler.get?_advance_self p.step found
      simp only [proceed, ih (s := ⟨s.scheduler.advance id p.step, s.world⟩) stepped]

theorem instructions_eq_runSlice (host : Host σ) (s : Simulation σ) (id : ProcessId) :
    instructions host id s.scheduler.config.slice s =
      follow host s.world (s.scheduler.runSlice id) := by
  cases found : s.scheduler.table.get? id with
  | some p => rw [Scheduler.runSlice_eq found, instructions_eq_follow _ found]
  | none =>
    have nothing : s.scheduler.runSlice id = ⟨s.scheduler, []⟩ := by
      rw [Scheduler.runSlice, found]
      rfl
    rw [nothing]
    cases s.scheduler.config.slice with
    | zero => rfl
    | succ limit =>
      rw [instructions]
      simp only [found]
      rfl

theorem tick_eq_follow (host : Host σ) (s : Simulation σ) :
    tick host s = follow host s.world s.scheduler.tick := by
  have seated : quietly Scheduler.seated s = follow host s.world s.scheduler.seated :=
    quietly_eq_follow (Scheduler.passages_seated s.scheduler)
  rw [Scheduler.tick_eq, follow_bind, ← seated, tick]
  cases running : (quietly Scheduler.seated s).1.scheduler.running with
  | none => simp [proceed, follow, running, Event.outputs, Host.settle, Host.settle.go]
  | some id =>
    have requeued : ∀ s : Simulation σ, quietly Scheduler.requeue s =
        follow host s.world s.scheduler.requeue :=
      fun s => quietly_eq_follow (Scheduler.passages_requeue s.scheduler)
    have dispatched : ∀ s : Simulation σ, quietly Scheduler.dispatch s =
        follow host s.world s.scheduler.dispatch :=
      fun s => quietly_eq_follow (Scheduler.passages_dispatch s.scheduler)
    simp only [proceed, running, instructions_eq_runSlice, requeued, dispatched, Scheduler.serve,
      follow_bind, List.append_assoc]

theorem ticksWithin_eq_follow (host : Host σ) (limit : Nat) (s : Simulation σ) :
    ticksWithin host limit s =
      (s.scheduler.runWithin limit []).map (follow host s.world) := by
  induction limit generalizing s with
  | zero =>
    rw [ticksWithin, Scheduler.runWithin]
    split <;> rfl
  | succ limit ih =>
    by_cases quiescent : s.scheduler.isQuiescent = true
    · rw [ticksWithin, Scheduler.runWithin, if_pos quiescent, if_pos quiescent]
      rfl
    · rw [ticksWithin, if_neg quiescent, Scheduler.runWithin_succ quiescent, ih, tick_eq_follow,
        Option.map_map, Option.map_map]
      congr 1
      funext t
      exact (follow_bind host s.world s.scheduler.tick fun _ => t).symm

/-- With the host beside the scheduler all requests come to what they come to when the events are
settled after them. -/
theorem attend_eq_perform (host : Host σ) (s : Simulation σ) (request : Request) :
    s.attend host request = s.perform host request := by
  cases request with
  | submit => rfl
  | submitImage => rfl
  | kill id =>
    rw [attend, perform, Scheduler.perform]
    cases found : s.scheduler.lookup id with
    | error refusal =>
      rw [Scheduler.kill_of_error found]
      rfl
    | ok p =>
      rw [Scheduler.kill_of_ok found]
      simp only [depart_eq_follow]
      rfl
  | tick =>
    rw [attend, perform, Scheduler.perform_tick, tick_eq_follow]
    rfl
  | runAll =>
    rw [attend, perform, Scheduler.perform, Scheduler.runAll, ticksWithin_eq_follow,
      Option.map_map, Option.map_map]
    rfl

end

/-! ## One request after another -/

/-- A request, and what reading images yields while it is carried out. -/
structure Visit where
  load : String → Except Fault (List UInt8)
  request : Request

/-- What a request came to: the reply, the state of the scheduler behind it, and the records that
the host was offered meanwhile, in order. -/
structure Stage where
  reply : Reply
  scheduler : Scheduler
  offered : List Record

/-- Carries out requests with the host beside the scheduler. Images do not come from the host. -/
def attendAll (host : Host σ) (s : Simulation σ) : List Visit → Option (Simulation σ × List Stage)
  | [] => some (s, [])
  | visit :: rest => do
    let (s, reply, outputs) ← s.attend ⟨fun _ => visit.load, host.keep⟩ visit.request
    let (after, stages) ← s.attendAll host rest
    return (after, ⟨reply, s.scheduler, Output.records outputs⟩ :: stages)

end Simulation

/-- What requests come to in a scheduler that nobody listens to. -/
def Scheduler.stages (s : Scheduler) :
    List Simulation.Visit → Option (Scheduler × List Simulation.Stage)
  | [] => some (s, [])
  | visit :: rest => do
    let t ← s.perform visit.load visit.request
    let (after, stages) ← t.value.2.stages rest
    return (after, ⟨t.value.1, t.value.2, Event.records t.events⟩ :: stages)

namespace Simulation

variable {σ τ : Type}

/-- The host is offered the records of the stages, and has no other part in them. -/
theorem attendAll_eq (host : Host σ) (s : Simulation σ) (visits : List Visit) :
    s.attendAll host visits = (s.scheduler.stages visits).map fun x =>
      (⟨x.1, host.keepAll s.world (x.2.flatMap Stage.offered)⟩, x.2) := by
  induction visits generalizing s with
  | nil => rfl
  | cons visit rest ih =>
    rw [attendAll, attend_eq_perform, perform, Scheduler.stages]
    cases s.scheduler.perform visit.load visit.request with
    | none => rfl
    | some t =>
      have world : ((⟨fun _ => visit.load, host.keep⟩ : Host σ).settle s.world
          (Event.outputs t.events)).1 = host.keepAll s.world (Event.records t.events) := by
        rw [Host.world_settle, Output.records_events]
        rfl
      simp only [Option.map_some, Option.bind_eq_bind, Option.bind_some, ih, world,
        Host.records_settle, Output.records_events]
      cases t.value.2.stages rest with
      | none => rfl
      | some x => simp [host.keepAll_append]

/-- As long as the records do not show in the images, the program itself goes through the same
stages. -/
theorem performAll_eq {host : Host σ}
    (apart : ∀ world r, host.load (host.keep world r).1 = host.load world) (s : Simulation σ)
    (requests : List Request) :
    (s.performAll host requests).map (fun x => (x.1, x.2.1, Output.records x.2.2)) =
      (s.scheduler.stages (requests.map (Visit.mk (host.load s.world)))).map fun x =>
        (⟨x.1, host.keepAll s.world (x.2.flatMap Stage.offered)⟩, x.2.map Stage.reply,
          x.2.flatMap Stage.offered) := by
  have unread : ∀ records world, host.load (host.keepAll world records) = host.load world := by
    intro records
    induction records with
    | nil => exact fun _ => rfl
    | cons r rest ih => exact fun world => (ih _).trans (apart world r)
  induction requests generalizing s with
  | nil => rfl
  | cons request rest ih =>
    rw [performAll, perform, List.map_cons, Scheduler.stages]
    cases s.scheduler.perform (host.load s.world) request with
    | none => rfl
    | some t =>
      have later := ih ⟨t.value.2, (host.settle s.world (Event.outputs t.events)).1⟩
      simp only [host.world_settle, Output.records_events, unread] at later
      simp only [Option.map_some, Option.bind_eq_bind, Option.bind_some, host.world_settle,
        Output.records_events]
      cases others : t.value.2.stages (rest.map (Visit.mk (host.load s.world))) with
      | none =>
        rw [others, Option.map_none, Option.map_eq_none_iff] at later
        simp [later]
      | some x =>
        rw [others, Option.map_some, Option.map_eq_some_iff] at later
        obtain ⟨⟨after, replies, outputs⟩, answers, heq⟩ := later
        simp only [Prod.mk.injEq] at heq
        obtain ⟨rfl, rfl, announced⟩ := heq
        simp [answers, announced, host.records_settle, Output.records_events, host.keepAll_append]

end Simulation

/-! ## Stores -/

namespace Host

variable {σ : Type}

/-- A world of the host has a store. Records go there in order, except those of certain names, which
are refused always. -/
structure Stores (host : Host σ) (store : σ → List Record) (refuses : σ → String → Bool) :
    Prop where
  refused : ∀ world r, refuses world r.status.name = true →
    store (host.keep world r).1 = store world ∧ (host.keep world r).2.isSome
  taken : ∀ world r, refuses world r.status.name = false →
    store (host.keep world r).1 = store world ++ [r] ∧ (host.keep world r).2 = none
  always : ∀ world r, refuses (host.keep world r).1 = refuses world

/-- Refused records are left out, and the others are stored in the order of the offers. -/
theorem Stores.store_keepAll {host : Host σ} {store : σ → List Record}
    {refuses : σ → String → Bool} (h : host.Stores store refuses) (world : σ)
    (records : List Record) :
    store (host.keepAll world records) =
      store world ++ records.filter fun r => !refuses world r.status.name := by
  induction records generalizing world with
  | nil => simp [keepAll]
  | cons r rest ih =>
    rw [keepAll, List.foldl_cons, ← keepAll, ih, h.always]
    cases refused : refuses world r.status.name with
    | true => simp [(h.refused world r refused).1, refused]
    | false => simp [(h.taken world r refused).1, refused]

end Host

/-- An archive stores its records. -/
theorem Archive.stores :
    Archive.host.Stores Archive.records fun a name => (a.refused.lookup name).isSome where
  refused a r refused := by
    obtain ⟨fault, found⟩ := Option.isSome_iff_exists.mp refused
    simp [host, collect, found]
  taken a r taken := by
    rw [Option.isSome_eq_false_iff, Option.isNone_iff_eq_none] at taken
    simp [host, collect, taken]
  always a r := by
    simp only [host, collect]
    split <;> rfl

/-- The images of an archive do not depend on its records. -/
theorem Archive.image_collect (a : Archive) (r : Record) : (a.collect r).1.image = a.image := by
  simp only [collect]
  split <;> rfl

/-! ## Two hosts -/

namespace Simulation

variable {σ τ : Type}

/-- What a host makes of the records has no effect on the simulation: with another host, which may
have another world and may refuse other records, everything is the same. -/
structure Unaffected (host : Host σ) (other : Host τ) (scheduler : Scheduler) (world : σ)
    (world' : τ) : Prop where
  /-- What is settled after a request might as well have taken place in the middle of it. -/
  settled : ∀ (s : Simulation σ) request, s.perform host request = s.attend host request
  /-- The requests have the same replies and lead through the same states, the same records are
  offered on the way, or both simulations get stuck. -/
  attended : ∀ visits,
    (attendAll host ⟨scheduler, world⟩ visits).map (fun x => (x.1.scheduler, x.2)) =
      (attendAll other ⟨scheduler, world'⟩ visits).map fun x => (x.1.scheduler, x.2)
  /-- Every record is offered, once and in this order. -/
  offered : ∀ visits after stages,
    attendAll host ⟨scheduler, world⟩ visits = some (after, stages) →
      after.world = host.keepAll world (stages.flatMap Stage.offered)
  /-- The program does the same too if it reads the same images in both worlds. -/
  performed : (∀ world r, host.load (host.keep world r).1 = host.load world) →
    (∀ world r, other.load (other.keep world r).1 = other.load world) →
    host.load world = other.load world' → ∀ requests,
      (performAll host ⟨scheduler, world⟩ requests).map
          (fun x => (x.1.scheduler, x.2.1, Output.records x.2.2)) =
        (performAll other ⟨scheduler, world'⟩ requests).map
          fun x => (x.1.scheduler, x.2.1, Output.records x.2.2)
  /-- If the other host takes everything, then the first one stores the same records, in the same
  order, except those that it refuses. -/
  stored : ∀ {store refuses store' refuses'}, host.Stores store refuses →
    other.Stores store' refuses' → (∀ name, refuses' world' name = false) →
    store world = [] → store' world' = [] → ∀ visits,
      (attendAll host ⟨scheduler, world⟩ visits).map (fun x => store x.1.world) =
        (attendAll other ⟨scheduler, world'⟩ visits).map
          fun x => (store' x.1.world).filter fun r => !refuses world r.status.name

/-- The loss of records never affects a simulation. -/
theorem unaffected_by_losses (host : Host σ) (other : Host τ) (scheduler : Scheduler) (world : σ)
    (world' : τ) : Unaffected host other scheduler world world' := by
  constructor
  case settled => exact fun s request => (attend_eq_perform host s request).symm
  case attended =>
    intro visits
    simp only [attendAll_eq, Option.map_map]
    rfl
  case offered =>
    intro visits after stages answers
    rw [attendAll_eq, Option.map_eq_some_iff] at answers
    obtain ⟨x, -, heq⟩ := answers
    simp only [Prod.mk.injEq] at heq
    rw [← heq.1, ← heq.2]
  case performed =>
    intro apart apart' same requests
    have first := performAll_eq apart ⟨scheduler, world⟩ requests
    have second := performAll_eq apart' ⟨scheduler, world'⟩ requests
    rw [same] at first
    have forget := congrArg (Option.map fun x => (x.1.scheduler, x.2.1, x.2.2)) first
    have forget' := congrArg (Option.map fun x => (x.1.scheduler, x.2.1, x.2.2)) second
    simp only [Option.map_map] at forget forget'
    exact forget.trans forget'.symm
  case stored =>
    intro store refuses store' refuses' stores stores' takes empty empty' visits
    simp only [attendAll_eq, Option.map_map]
    congr 1
    funext x
    simp [stores.store_keepAll, stores'.store_keepAll, empty, empty', takes]

/-- Three of four processes end while the loop of ticks runs, and one of these records is refused,
as is that of a process that was killed before. -/
theorem unaffected_by_refusals :
    let loop := Scheduler.loopImage
    let picky : Archive := { refused := [("b", .notADirectory), ("d", .isADirectory)] }
    let scheduler := Scheduler.init { slice := 2, maxReady := 2 }
    let requests : List Request := [.submitImage ⟨1, .normal, 5, "a", loop⟩,
      .submitImage ⟨1, .high, 1, "b", loop⟩, .submitImage ⟨1, .low, 3, "c", loop⟩,
      .submitImage ⟨1, .low, 3, "d", loop⟩, .tick, .kill 3, .runAll]
    let visits := requests.map (Visit.mk fun _ => .error .notFound)
    (attendAll Archive.host ⟨scheduler, {}⟩ visits).map
        (fun x => x.1.world.records.map fun r => r.status.name) = some ["d", "b", "a", "c"] ∧
      (attendAll Archive.host ⟨scheduler, picky⟩ visits).map
        (fun x => x.1.world.records.map fun r => r.status.name) = some ["a", "c"] ∧
      Unaffected Archive.host Archive.host scheduler picky {} ∧
      (performAll Archive.host ⟨scheduler, picky⟩ requests).map
          (fun x => (x.1.scheduler, x.2.1, Output.records x.2.2)) =
        (performAll Archive.host ⟨scheduler, {}⟩ requests).map
          (fun x => (x.1.scheduler, x.2.1, Output.records x.2.2)) ∧
      (attendAll Archive.host ⟨scheduler, picky⟩ visits).map (fun x => x.1.world.records) =
        (attendAll Archive.host ⟨scheduler, {}⟩ visits).map fun x =>
          x.1.world.records.filter fun r => !(picky.refused.lookup r.status.name).isSome := by
  intro loop picky scheduler requests visits
  have same := unaffected_by_losses Archive.host Archive.host scheduler picky {}
  exact ⟨by decide, by decide, same,
    same.performed Archive.image_collect Archive.image_collect rfl requests,
    same.stored Archive.stores Archive.stores (fun _ => rfl) rfl rfl visits⟩

end Simulation

end Timeshare
