import Mathlib
import Timeshare.Proofs.Scheduler.Rotation

/-!
# Fairness

Who is in the round has a turn again and again, whatever is asked between the ticks. `Course` is a
stretch of time with the turns of its ticks. Two processes that stay in the round throughout have
their turns alternately (`Course.alternates`), and whoever has `n` others in front of it in the
round has its turn after at most `n` other turns (`Course.turn_comes`).
-/

namespace Timeshare

/-! ## Alternation -/

/-- Of two processes the first one has a turn before the second one has, then the second one before
the first one, and so on. Turns of others, and ticks without a turn, do not matter. -/
def Alternates : ProcessId → ProcessId → List (Option ProcessId) → Prop
  | _, _, [] => True
  | p, q, turn :: later =>
    if turn = some p then Alternates q p later else turn ≠ some q ∧ Alternates p q later

namespace Alternates

variable {p q : ProcessId} {turn : Option ProcessId}
  {turns before between later : List (Option ProcessId)}

theorem first (h : Alternates q p later) : Alternates p q (some p :: later) := by
  rwa [Alternates, if_pos rfl]

theorem skip (first : turn ≠ some p) (second : turn ≠ some q) (h : Alternates p q later) :
    Alternates p q (turn :: later) := by
  rw [Alternates, if_neg first]
  exact ⟨second, h⟩

theorem own (h : Alternates p q (some p :: later)) : Alternates q p later := by
  rwa [Alternates, if_pos rfl] at h

theorem other (h : Alternates p q (turn :: later)) (different : turn ≠ some p) :
    turn ≠ some q ∧ Alternates p q later := by
  rwa [Alternates, if_neg different] at h

/-- The one who comes first is ahead by one turn at most, and never behind. -/
theorem count_le (h : Alternates p q turns) (different : p ≠ q) :
    turns.count (some q) ≤ turns.count (some p) ∧
      turns.count (some p) ≤ turns.count (some q) + 1 := by
  induction turns generalizing p q with
  | nil => simp
  | cons turn later ih =>
    by_cases first : turn = some p
    · subst first
      have apart : some p ≠ some q := fun heq => different (Option.some.inj heq)
      have swapped := ih h.own different.symm
      rw [List.count_cons_self, List.count_cons_of_ne apart]
      omega
    · obtain ⟨second, later⟩ := h.other first
      rw [List.count_cons_of_ne first, List.count_cons_of_ne second]
      exact ih later different

/-- The second one has no turn before the first one has. -/
theorem not_mem (h : Alternates p q (before ++ later)) (absent : some p ∉ before) :
    some q ∉ before := by
  induction before with
  | nil => exact List.not_mem_nil
  | cons turn before ih =>
    rw [List.mem_cons, not_or] at absent ⊢
    obtain ⟨second, later⟩ := h.other (Ne.symm absent.1)
    exact ⟨Ne.symm second, ih later absent.2⟩

/-- Before the second one has a turn, the first one has exactly one. -/
theorem count_eq_one (h : Alternates q p (between ++ some p :: later)) (different : p ≠ q)
    (absent : some p ∉ between) : between.count (some q) = 1 := by
  have apart : some p ≠ some q := fun heq => different (Option.some.inj heq)
  induction between with
  | nil => exact absurd rfl (h.other apart).1
  | cons turn between ih =>
    have rest := List.not_mem_of_not_mem_cons absent
    by_cases first : turn = some q
    · subst first
      have none := h.own.not_mem rest
      rw [List.count_cons_self, List.count_eq_zero_of_not_mem none]
    · rw [List.count_cons_of_ne first]
      exact ih (h.other first).2 rest

/-- After a turn of the one the other one is due. -/
theorem drop (different : p ≠ q) (h : Alternates p q (before ++ some p :: later) ∨
    Alternates q p (before ++ some p :: later)) : Alternates q p later := by
  have apart : some p ≠ some q := fun heq => different (Option.some.inj heq)
  induction before with
  | nil =>
    rcases h with h | h
    · exact h.own
    · exact absurd rfl (h.other apart).1
  | cons turn before ih =>
    apply ih
    rcases h with h | h
    · by_cases first : turn = some p
      · subst first
        exact .inr h.own
      · exact .inl (h.other first).2
    · by_cases first : turn = some q
      · subst first
        exact .inl h.own
      · exact .inr (h.other first).2

end Alternates

namespace Scheduler

/-! ## Courses -/

/-- A stretch of time from a state on: ticks, and requests that take no time between them. `stays`
holds in all its states and `may` of all its requests, and a list says whose turn each of its ticks
is. Running until nothing is left is a number of ticks. -/
inductive Course (stays : Scheduler → Prop) (may : Request → Prop) :
    Scheduler → List (Option ProcessId) → Prop
  | stop {s : Scheduler} (here : stays s) : Course stays may s []
  | tick {s : Scheduler} {turns : List (Option ProcessId)} (here : stays s)
      (later : Course stays may s.tick.value turns) : Course stays may s (s.turn? :: turns)
  | request {s : Scheduler} {turns : List (Option ProcessId)} {t : Traced (Reply × Scheduler)}
      (load : String → Except Fault (List UInt8)) (request : Request) (here : stays s)
      (allowed : may request) (timeless : request.takesTime = false)
      (answer : s.perform load request = some t) (later : Course stays may t.value.2 turns) :
      Course stays may s turns

/-- A process that takes part in the round: it is ready or running. -/
def Active (s : Scheduler) (id : ProcessId) : Prop :=
  ∃ p, s.table.get? id = some p ∧ (p.state = .ready ∨ p.state = .running)

section

variable {s t : Scheduler} {p q id : ProcessId} {stays : Scheduler → Prop} {may : Request → Prop}
  {turns : List (Option ProcessId)}

theorem Course.here (course : Course stays may s turns) : stays s := by
  cases course <;> assumption

theorem Placed.tick (h : s.Placed) : s.tick.value.Placed := (moves_tick s).placed h

theorem Placed.active_iff (h : s.Placed) : s.Active id ↔ id ∈ s.rotation.turns := by
  simp only [rotation, List.mem_append, List.mem_filter]
  constructor
  · rintro ⟨p, found, ready | running⟩
    · exact .inr ⟨(h.state_iff id p found .ready).mp ready, h.isLive_iff.mpr ⟨p, found⟩⟩
    · exact .inl ((h.state_iff id p found .running).mp running)
  · rintro (runs | ⟨waits, live⟩)
    · obtain ⟨p, found⟩ := h.occupied id runs
      exact ⟨p, found, .inr ((h.state_iff id p found .running).mpr runs)⟩
    · obtain ⟨p, found⟩ := h.isLive_iff.mp live
      exact ⟨p, found, .inl ((h.state_iff id p found .ready).mpr waits)⟩

/-- A request that takes no time leaves the round as it is, or takes somebody out of it who is
killed. -/
theorem Answer.round {request : Request} {reply : Reply} (answer : Answer s request reply t)
    (h : s.Placed) : t.rotation.turns = s.rotation.turns ∨
      ∃ id : ProcessId, request = .kill id ∧ t.rotation.turns = s.rotation.turns.erase id := by
  cases answer with
  | refuse => exact .inl rfl
  | create submission _ =>
    left
    rw [rotation_create h submission]
    rfl
  | @kill id p found => exact .inr ⟨id, rfl, congrArg Rotation.turns (rotation_without h found)⟩

/-- A tick passes with nobody in the round, or its head has a turn, with those behind it of whom one
may just have entered. -/
theorem round_tick (h : s.Placed) : s.turn? = none ∧ s.rotation.turns = [] ∨
    ∃ id rest entering, s.turn? = some id ∧ s.rotation.turns ++ entering = id :: rest ∧
      id ∉ rest ∧ s.tick.value.rotation.turns = if s.outlasts id then rest ++ [id] else rest := by
  obtain ⟨entering, round⟩ := Rotation.turns_enter s.rotation s.hasRoom
  have head := turn?_eq_head? s
  have nodup := ((moves_seated s).placed h).nodup_rotation
  rw [rotation_seated] at nodup
  cases next : (s.rotation.enter s.hasRoom).turns with
  | nil =>
    rw [next] at head round
    exact .inl ⟨head, (List.append_eq_nil_iff.mp round.symm).1⟩
  | cons id rest =>
    rw [next] at head nodup
    have absent := (List.nodup_cons.mp (List.nodup_append'.mp nodup).1).1
    refine .inr ⟨id, rest, entering, head, round.symm.trans next, absent, ?_⟩
    rw [rotation_tick h, Rotation.turn_of_cons next]

/-! ## Taking turns -/

/-- Two processes that stay in the round have their turns alternately, beginning with the one who is
ahead. -/
theorem Course.alternates (course : Course stays may s turns) (placed : s.Placed)
    (active : ∀ s, stays s → s.Active p ∧ s.Active q) (ahead : [p, q].Sublist s.rotation.turns) :
    Alternates p q turns := by
  induction course generalizing p q with
  | stop => trivial
  | @tick s turns here later ih =>
    obtain ⟨p_stays, q_stays⟩ := active _ later.here
    rw [placed.tick.active_iff] at p_stays q_stays
    rcases round_tick placed with ⟨-, nobody⟩ | ⟨id, rest, entering, turn, round, absent, after⟩
    · rw [nobody] at ahead
      cases ahead
    · have ahead : [p, q].Sublist (id :: rest) :=
        round ▸ ahead.trans (List.sublist_append_left _ _)
      rw [turn]
      by_cases own : id = p
      · -- The first one goes behind the second one.
        subst own
        have survives : s.outlasts id = true := by
          by_contra dies
          rw [after, if_neg dies] at p_stays
          exact absent p_stays
        rw [if_pos survives] at after
        have behind : [q].Sublist rest := List.cons_sublist_cons.mp ahead
        refine .first (ih placed.tick (fun s h => (active s h).symm) ?_)
        rw [after]
        exact behind.append (.refl [id])
      · have ahead : [p, q].Sublist rest := ahead.of_cons_of_ne (Ne.symm own)
        have other : id ≠ q := by
          rintro rfl
          exact absent (ahead.subset (List.mem_cons_of_mem _ List.mem_cons_self))
        have kept : rest.Sublist s.tick.value.rotation.turns := by
          rw [after]
          split
          · exact List.sublist_append_left _ _
          · exact .refl _
        refine .skip (fun h => own (Option.some.inj h)) (fun h => other (Option.some.inj h)) ?_
        exact ih placed.tick active (ahead.trans kept)
  | @request s turns t load request here allowed timeless answer later ih =>
    have became := answer_of_perform timeless answer
    have placed' := became.placed placed
    apply ih placed' active
    rcases became.round placed with same | ⟨id, -, left⟩
    · rwa [same]
    · -- Neither of the two is the one who is killed.
      obtain ⟨p_stays, q_stays⟩ := active _ later.here
      rw [placed'.active_iff, left] at p_stays q_stays
      have nodup := (List.nodup_append'.mp placed.nodup_rotation).1
      have others : id ∉ [p, q] := by
        rw [nodup.mem_erase_iff] at p_stays q_stays
        simp [Ne.symm p_stays.1, Ne.symm q_stays.1]
      rw [left, ← List.erase_of_not_mem others]
      exact ahead.erase id

/-- Of two in a list without repetitions one stands before the other. -/
theorem pair_sublist_or {l : List ProcessId} (hp : p ∈ l) (hq : q ∈ l) (different : p ≠ q) :
    [p, q].Sublist l ∨ [q, p].Sublist l := by
  obtain ⟨before, behind, rfl⟩ := List.append_of_mem hp
  rcases List.mem_append.mp hq with first | second
  · exact .inr ((List.singleton_sublist.mpr first).append
      (List.singleton_sublist.mpr List.mem_cons_self))
  · have second := (List.mem_cons.mp second).resolve_left (Ne.symm different)
    exact .inl ((List.cons_sublist_cons.mpr (List.singleton_sublist.mpr second)).trans
      (List.sublist_append_right _ _))

/-- Whoever is in the round and is not killed has a turn after at most as many other turns as there
are others ahead. -/
theorem Course.turn_comes {n : Nat} {ahead behind : List ProcessId}
    (course : Course stays may s turns) (placed : s.Placed)
    (spared : ∀ request, may request → request ≠ .kill p)
    (stands : s.rotation.turns = ahead ++ p :: behind) (few : ahead.length ≤ n)
    (long : n < turns.length) : some p ∈ turns.take (n + 1) := by
  induction course generalizing n ahead behind with
  | stop => cases long
  | @tick s turns here later ih =>
    rcases round_tick placed with ⟨-, nobody⟩ | ⟨id, rest, entering, turn, round, absent, after⟩
    · rw [nobody] at stands
      cases ahead <;> cases stands
    · rw [stands, List.append_assoc, List.cons_append] at round
      rw [turn, List.take_succ_cons]
      cases ahead with
      | nil =>
        cases round
        exact List.mem_cons_self
      | cons first ahead =>
        rw [List.cons_append] at round
        obtain ⟨rfl, tail⟩ := List.cons.inj round
        obtain ⟨n, rfl⟩ := Nat.exists_eq_add_of_le' ((Nat.le_add_left 1 _).trans few)
        have stands : ∃ behind, s.tick.value.rotation.turns = ahead ++ p :: behind := by
          rw [after, ← tail]
          split
          · exact ⟨_, by rw [List.append_assoc, List.cons_append]⟩
          · exact ⟨_, rfl⟩
        obtain ⟨behind, stands⟩ := stands
        refine List.mem_cons_of_mem _ (ih placed.tick stands ?_ ?_)
        · exact Nat.le_of_succ_le_succ few
        · exact Nat.lt_of_succ_lt_succ long
  | @request s turns t load request here allowed timeless answer later ih =>
    have became := answer_of_perform timeless answer
    have placed' := became.placed placed
    rcases became.round placed with same | ⟨id, rfl, left⟩
    · exact ih placed' (same.trans stands) few long
    · have other : p ≠ id := by
        rintro rfl
        exact spared _ allowed rfl
      rw [stands, List.erase_append] at left
      split at left
      · exact ih placed' left (List.length_erase_le.trans few) long
      · rw [List.erase_cons_tail (by simpa using other)] at left
        exact ih placed' left few long

/-! ## Fairness -/

/-- Nobody is ahead of a process in the round but the one who runs and those who stand before it in
the ready queue. -/
theorem stands_of_ready {k : Nat} (waits : s.ready.ids[k]? = some p)
    (live : s.table.isLive p = true) :
    ∃ ahead behind, s.rotation.turns = ahead ++ p :: behind ∧ ahead.length ≤ k + 1 := by
  obtain ⟨bound, rfl⟩ := List.getElem?_eq_some_iff.mp waits
  have split : s.ready.ids =
      s.ready.ids.take k ++ s.ready.ids[k] :: s.ready.ids.drop (k + 1) := by
    rw [List.cons_getElem_drop_succ, List.take_append_drop]
  refine ⟨s.running.toList ++ (s.ready.ids.take k).filter s.table.isLive,
    (s.ready.ids.drop (k + 1)).filter s.table.isLive, ?_, ?_⟩
  · rw [rotation]
    nth_rewrite 1 [split]
    rw [List.filter_append, List.filter_cons_of_pos live, List.append_assoc]
  · have running : s.running.toList.length ≤ 1 := by cases s.running <;> simp
    have before := List.length_filter_le s.table.isLive (s.ready.ids.take k)
    rw [List.length_take] at before
    rw [List.length_append]
    omega

/-- What every scheduler gives to the processes that are in its round. -/
structure Fair (s : Scheduler) : Prop where
  /-- Two processes that stay ready or running have one turn each between two turns of the other,
  and so their numbers of turns differ by at most one. -/
  alternation : ∀ p q turns, p ≠ q →
    Course (fun s => s.Active p ∧ s.Active q) (fun _ => True) s turns →
    (∀ before between later, turns = before ++ some p :: between ++ some p :: later →
      some p ∉ between → between.count (some q) = 1) ∧
    turns.count (some p) ≤ turns.count (some q) + 1 ∧
    turns.count (some q) ≤ turns.count (some p) + 1
  /-- A process behind `k` entries of the ready queue, which may be of processes that are gone, has
  a turn within `k + 2` ticks unless it is killed, whatever else is asked meanwhile. -/
  waiting : ∀ k p turns, s.ready.ids[k]? = some p → s.table.isLive p = true →
    Course (fun _ => True) (· ≠ .kill p) s turns → k + 2 ≤ turns.length →
    some p ∈ turns.take (k + 2)

/-- After any requests the processor is shared fairly from then on. -/
theorem fair_of_run {config : Config} {granted : List Submission} {events : List Event}
    (run : Run config granted events s) : Fair s := by
  have placed := run.history.placed
  constructor
  case alternation =>
    intro p q turns different course
    obtain ⟨p_active, q_active⟩ := course.here
    rw [placed.active_iff] at p_active q_active
    have alternates : Alternates p q turns ∨ Alternates q p turns := by
      rcases pair_sublist_or p_active q_active different with ahead | ahead
      · exact .inl (course.alternates placed (fun _ h => h) ahead)
      · exact .inr (course.alternates placed (fun _ h => h.symm) ahead)
    constructor
    · rintro before between later rfl absent
      rw [List.append_assoc, List.cons_append] at alternates
      exact (Alternates.drop different alternates).count_eq_one different absent
    · rcases alternates with h | h
      · have := h.count_le different
        omega
      · have := h.count_le (Ne.symm different)
        omega
  case waiting =>
    intro k p turns waits live course long
    obtain ⟨ahead, behind, stands, few⟩ := stands_of_ready waits live
    exact course.turn_comes placed (fun _ h => h) stands few long

end

/-- One loop runs, and one that was killed stands before another loop in the full ready queue. In
the course that follows the two loops have their turns while a further submission is made. -/
theorem fair_with_gone :
    ∃ granted events s, Run { slice := 1, maxReady := 2 } granted events s ∧
      s.running = some 0 ∧ s.ready.ids = [2, 1] ∧ s.table.isLive 2 = false ∧
      Course (fun s => s.Active 0 ∧ s.Active 1) (fun _ => True) s [some 0, some 1, some 0] ∧
      Fair s := by
  let load : String → Except Fault (List UInt8) := fun _ => .error .notFound
  let submit : Request := .submitImage ⟨1, .normal, 9, "loop", loopImage⟩
  have fresh : Run { slice := 1, maxReady := 2 } [] [] (init { slice := 1, maxReady := 2 }) :=
    .start
  have two := (fresh.serve load submit rfl).serve load submit rfl
  have created := (two.serve load submit rfl).serve load submit rfl
  have ticked := ((created.serve load .tick rfl).serve load .tick rfl).serve load .tick rfl
  have run := ticked.serve load (.kill 2) rfl
  refine ⟨_, _, _, run, by decide, by decide, by decide, ?_, fair_of_run run⟩
  refine .tick ⟨⟨_, rfl, .inr rfl⟩, ⟨_, rfl, .inl rfl⟩⟩ ?_
  refine .request load submit ⟨⟨_, rfl, .inl rfl⟩, ⟨_, rfl, .inr rfl⟩⟩ trivial rfl rfl ?_
  refine .tick ⟨⟨_, rfl, .inl rfl⟩, ⟨_, rfl, .inr rfl⟩⟩ ?_
  refine .tick ⟨⟨_, rfl, .inr rfl⟩, ⟨_, rfl, .inl rfl⟩⟩ ?_
  exact .stop ⟨⟨_, rfl, .inl rfl⟩, ⟨_, rfl, .inl rfl⟩⟩

end Scheduler

end Timeshare
