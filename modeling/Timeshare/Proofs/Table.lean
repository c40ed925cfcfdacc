import Mathlib
import Timeshare.Table

/-!
# The processes of a table

What the operations of the table do to the list of its processes. A process stands somewhere in
that list; removing it takes it out, and changing it puts another one in its place.
`processes_remove` and `processes_update` say so up to order, which is all that sums over the
processes and lists of their identifiers need.
-/

namespace Timeshare

namespace Table

variable {t : Table} {id other : ProcessId} {p : Process}

theorem mem_processes : p ∈ t.processes ↔ ∃ id, t.get? id = some p := by
  rw [processes, List.mem_filterMap]
  simp only [id_eq, exists_eq_right, List.mem_iff_getElem?, get?, Option.join_eq_some_iff]

theorem lt_nextId_of_get? (h : t.get? id = some p) : id < t.nextId := by
  by_contra hge
  rw [get?, List.getElem?_eq_none (Nat.le_of_not_lt hge)] at h
  cases h

theorem isLive_iff : t.isLive id = true ↔ ∃ p, t.get? id = some p ∧ p.dead = false := by
  simp [isLive, Option.any_eq_true]

/-- An occupied slot splits the table in two, and the operations on that slot leave both parts as
they are. -/
theorem slots_split (h : t.get? id = some p) :
    ∃ pre post, t.slots = pre ++ some p :: post ∧ (t.remove id).slots = pre ++ none :: post ∧
      ∀ f, (t.update id f).slots = pre ++ some (f p) :: post := by
  have hslot : t.slots[id]? = some (some p) := by
    simpa [get?, Option.join_eq_some_iff] using h
  obtain ⟨hlt, hp⟩ := List.getElem?_eq_some_iff.mp hslot
  have hslots : t.slots = t.slots.take id ++ some p :: t.slots.drop (id + 1) := by
    rw [← hp, List.cons_getElem_drop_succ, List.take_append_drop]
  refine ⟨t.slots.take id, t.slots.drop (id + 1), hslots, ?_, fun f => ?_⟩
  · rw [remove, List.set_eq_take_append_cons_drop, if_pos hlt]
  · rw [update, List.modify_eq_set_getElem?, hslot]
    simp [List.set_eq_take_append_cons_drop, hlt]

theorem processes_remove (h : t.get? id = some p) :
    t.processes.Perm (p :: (t.remove id).processes) := by
  obtain ⟨pre, post, hslots, hremove, -⟩ := slots_split h
  rw [processes, processes, hslots, hremove]
  simp

theorem processes_update (h : t.get? id = some p) (f : Process → Process) :
    (t.update id f).processes.Perm (f p :: (t.remove id).processes) := by
  obtain ⟨pre, post, -, hremove, hupdate⟩ := slots_split h
  rw [processes, processes, hupdate, hremove]
  simp

theorem update_of_get?_eq_none (h : t.get? id = none) (f : Process → Process) :
    t.update id f = t := by
  obtain ⟨slots⟩ := t
  simp only [update, mk.injEq]
  refine List.ext_getElem? fun i => ?_
  rw [List.getElem?_modify]
  by_cases hi : id = i
  · subst hi
    simp only [get?] at h
    rcases hs : slots[id]? with - | - | q <;> simp_all
  · simp [hi]

theorem update_self (h : t.get? id = some p) : t.update id (fun _ => p) = t := by
  obtain ⟨pre, post, hslots, -, hupdate⟩ := slots_split h
  have heq : (t.update id fun _ => p).slots = t.slots := by rw [hupdate, hslots]
  cases t
  simpa [update] using heq

theorem update_update (t : Table) (id : ProcessId) (f g : Process → Process) :
    (t.update id f).update id g = t.update id (g ∘ f) := by
  simp only [update, mk.injEq]
  rw [List.modify_modify_eq]
  congr 1
  funext o
  cases o <;> rfl

/-- A change before a removal leaves no trace. -/
theorem remove_update (t : Table) (id : ProcessId) (f : Process → Process) :
    (t.update id f).remove id = t.remove id := by
  simp only [update, remove, mk.injEq]
  refine List.ext_getElem? fun i => ?_
  simp only [List.getElem?_set, List.getElem?_modify, List.length_modify]
  by_cases hi : id = i <;> simp [hi]

end Table

end Timeshare
