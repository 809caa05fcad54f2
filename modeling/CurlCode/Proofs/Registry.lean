import CurlCode.Proofs.Repetition
import CurlCode.Registry

/-!
What a registry shows of its history. The last change under an id decides what stands
there, and the ids stand in the order of the registrations that brought them in, each one
the first since the id was last taken out (`Reflects`). The built-in registry is one with
a history, too (`registry_reflects`).
-/
namespace CurlCode.Registry

inductive Change where
  | register (t : Target)
  | unregister (id : String)

namespace Change

def id : Change → String
  | .register t => t.id
  | .unregister id => id

/-- What stands under the id after the change. -/
def target? : Change → Option Target
  | .register t => some t
  | .unregister _ => none

def removes (id : String) : Change → Bool
  | .register _ => false
  | .unregister removed => removed = id

end Change

/-- Make a change, and give back what it replaces or takes out. -/
def change (g : Registry) : Change → Option Target × Registry
  | .register t => g.register t
  | .unregister id => g.unregister id

def after (g : Registry) (changes : List Change) : Registry :=
  changes.foldl (fun g c => (g.change c).2) g

/-- The target last registered under an id, unless the id was removed after that. -/
def held? (history : List Change) (id : String) : Option Target :=
  (history.filter fun c => c.id = id).getLast?.bind Change.target?

/-- The ids of the registrations that no removal of the id follows. -/
def lasting : List Change → List String
  | [] => []
  | .register t :: later =>
    if later.any (Change.removes t.id) then lasting later else t.id :: lasting later
  | .unregister _ :: later => lasting later

/-! ### One more change in a history -/

theorem held?_concat (history : List Change) (c : Change) (id : String) :
    held? (history ++ [c]) id = if c.id = id then c.target? else held? history id := by
  rw [held?, List.filter_append, List.getLast?_append]
  by_cases hid : c.id = id <;> simp [held?, hid]

theorem lasting_register (history : List Change) (t : Target) :
    lasting (history ++ [.register t]) = lasting history ++ [t.id] := by
  induction history with
  | nil => rfl
  | cons c history ih =>
    cases c with
    | register u =>
      have hany : (history ++ [Change.register t]).any (Change.removes u.id) =
          history.any (Change.removes u.id) := by simp [Change.removes]
      rw [List.cons_append, lasting, lasting, hany, ih]
      split <;> rfl
    | unregister id => exact ih

theorem lasting_unregister (history : List Change) (id : String) :
    lasting (history ++ [.unregister id]) = (lasting history).filter fun i => i ≠ id := by
  induction history with
  | nil => rfl
  | cons c history ih =>
    cases c with
    | register u =>
      have hany : (history ++ [Change.unregister id]).any (Change.removes u.id) =
          (history.any (Change.removes u.id) || decide (id = u.id)) := by
        simp [Change.removes]
      rw [List.cons_append, lasting, lasting, hany, ih]
      by_cases hid : u.id = id
      · subst hid
        cases history.any (Change.removes u.id) <;> simp
      · cases history.any (Change.removes u.id) <;> simp [hid, Ne.symm hid]
    | unregister id' => exact ih

theorem mem_lasting (history : List Change) (id : String) :
    id ∈ lasting history ↔ (held? history id).isSome := by
  induction history using List.reverseRecOn with
  | nil => simp [lasting, held?]
  | append_singleton history c ih =>
    cases c with
    | register t =>
      rw [lasting_register, held?_concat, List.mem_append, List.mem_singleton, ih,
        eq_comm (a := id)]
      by_cases hid : t.id = id <;> simp [Change.id, Change.target?, hid]
    | unregister removed =>
      rw [lasting_unregister, held?_concat, List.mem_filter, ih]
      by_cases hid : removed = id
      · simp [Change.id, Change.target?, hid]
      · simp [Change.id, hid, Ne.symm hid]

/-! ### One more change of a registry -/

theorem get?_change (g : Registry) (c : Change) (id : String) :
    (g.change c).2.get? id = if c.id = id then c.target? else g.get? id := by
  cases c with
  | register t =>
    by_cases hid : t.id = id
    · subst hid
      simpa [change, register, get?, Change.id, Change.target?] using
        find?_place_same t g.targets
    · simpa [change, register, get?, Change.id, hid] using
        find?_place_other t g.targets (Ne.symm hid)
  | unregister removed =>
    rw [change, unregister, get?, List.find?_filter]
    by_cases hid : removed = id
    · subst hid
      simp [Change.id, Change.target?]
    · have hsame (t : Target) : (t.id ≠ removed ∧ t.id = id) ↔ t.id = id :=
        and_iff_right_of_imp fun h => h ▸ Ne.symm hid
      simp [Change.id, hid, hsame, get?]

theorem ids_place (t : Target) (ts : List Target) :
    (place t ts).map Target.id =
      if t.id ∈ ts.map Target.id then ts.map Target.id else ts.map Target.id ++ [t.id] := by
  induction ts with
  | nil => rfl
  | cons u ts ih =>
    by_cases hid : u.id = t.id
    · simp [place, hid]
    · rw [place, if_neg hid, List.map_cons, ih, List.map_cons]
      by_cases hmem : t.id ∈ ts.map Target.id
      · rw [if_pos hmem, if_pos (List.mem_cons_of_mem _ hmem)]
      · have hnew : t.id ∉ u.id :: ts.map Target.id := by
          simpa [hmem] using Ne.symm hid
        rw [if_neg hmem, if_neg hnew, List.cons_append]

theorem ids_change (g : Registry) (c : Change) :
    (g.change c).2.ids = match c with
      | .register t => if t.id ∈ g.ids then g.ids else g.ids ++ [t.id]
      | .unregister id => g.ids.filter fun i => i ≠ id := by
  cases c with
  | register t => exact ids_place t g.targets
  | unregister id =>
    simp only [change, unregister, ids, List.filter_map]
    rfl

theorem get?_of_mem {ts : List Target} (h : (ts.map Target.id).Nodup) {t : Target}
    (ht : t ∈ ts) : get? ⟨ts⟩ t.id = some t := by
  induction ts with
  | nil => simp at ht
  | cons u ts ih =>
    rw [List.map_cons, List.nodup_cons] at h
    rcases List.mem_cons.1 ht with rfl | ht
    · simp [get?]
    · have hne : u.id ≠ t.id := by
        intro he
        exact h.1 (he ▸ List.mem_map_of_mem ht)
      simpa [get?, hne] using ih h.2 ht

/-! ### Whole histories -/

theorem after_concat (g : Registry) (changes : List Change) (c : Change) :
    g.after (changes ++ [c]) = ((g.after changes).change c).2 := List.foldl_append

theorem get?_after_empty (history : List Change) (id : String) :
    (empty.after history).get? id = held? history id := by
  induction history using List.reverseRecOn with
  | nil => rfl
  | append_singleton history c ih => rw [after_concat, get?_change, held?_concat, ih]

theorem ids_after_empty (history : List Change) :
    (empty.after history).ids = (lasting history).eraseDups := by
  induction history using List.reverseRecOn with
  | nil => rfl
  | append_singleton history c ih =>
    rw [after_concat, ids_change, ih]
    cases c with
    | register t => simp only [lasting_register, eraseDups_concat, List.mem_eraseDups]
    | unregister id => rw [lasting_unregister, eraseDups_filter]

/-- What a registry with this history shows. -/
structure Reflects (history : List Change) (g : Registry) : Prop where
  get? : ∀ id, g.get? id = held? history id
  ids : g.ids = (lasting history).eraseDups
  nodup : g.ids.Nodup
  mem_ids : ∀ id, id ∈ g.ids ↔ (g.get? id).isSome
  /-- A change gives back what stood under its id. -/
  change : ∀ c, (g.change c).1 = held? history c.id
  /-- A target under an id that is taken gets the place of the other one. -/
  register : ∀ t, (g.register t).2.ids = if t.id ∈ g.ids then g.ids else g.ids ++ [t.id]
  unregister : ∀ id, (g.unregister id).2.ids = g.ids.filter fun i => i ≠ id
  size : g.size = g.ids.length
  isEmpty : g.isEmpty = g.ids.isEmpty
  emit : ∀ r id, g.emit r id = .error (.unsupportedTarget id) ↔ g.get? id = none
  emitAll : ∀ r, (g.emitAll r).map .ok = g.ids.map (g.emit r)

theorem reflects_after_empty (history : List Change) :
    Reflects history (empty.after history) := by
  have hget := get?_after_empty history
  have hids := ids_after_empty history
  have hnodup : (empty.after history).ids.Nodup := hids ▸ nodup_eraseDups _
  refine ⟨hget, hids, hnodup, ?_, ?_, fun t => ids_change _ (.register t),
    fun id => ids_change _ (.unregister id), ?_, ?_, ?_, ?_⟩
  · intro id
    rw [hids, hget, List.mem_eraseDups, mem_lasting]
  · intro c
    rw [← hget]
    cases c <;> rfl
  · exact (List.length_map ..).symm
  · exact List.isEmpty_map.symm
  · intro r id
    cases hid : (empty.after history).get? id <;> simp [Registry.emit, hid]
  · intro r
    rw [Registry.emitAll, Registry.ids, List.map_map, List.map_map]
    refine List.map_congr_left fun t ht => ?_
    simp [Registry.emit, get?_of_mem hnodup ht]

/-- The registrations that the built-in registry comes from. -/
def builtinHistory : List Change := Target.builtin.map .register

theorem builtin_after (changes : List Change) :
    builtin.after changes = empty.after (builtinHistory ++ changes) := by
  rw [after, after, List.foldl_append]
  rfl

theorem held?_append_other {history changes : List Change} {id : String}
    (h : ∀ c ∈ changes, c.id ≠ id) : held? (history ++ changes) id = held? history id := by
  have hnone : changes.filter (fun c => c.id = id) = [] := by simpa using h
  rw [held?, List.filter_append, hnone, List.append_nil, held?]

theorem emit_builtin (r : Request) (id : String) : builtin.emit r id = CurlCode.emit r id := rfl

/-- Every registry shows what its history says, whether it started empty or with the built-in
targets; and what happens under other ids makes no difference to a built-in target. -/
theorem registry_reflects :
    (∀ history, Reflects history (empty.after history)) ∧
    ∀ changes, Reflects (builtinHistory ++ changes) (builtin.after changes) ∧
      ∀ id, (∀ c ∈ changes, c.id ≠ id) →
        ∀ r, (builtin.after changes).emit r id = CurlCode.emit r id := by
  refine ⟨reflects_after_empty, fun changes => ⟨?_, fun id hother r => ?_⟩⟩
  · rw [builtin_after]
    exact reflects_after_empty _
  · have hget : (builtin.after changes).get? id = builtin.get? id := by
      rw [builtin_after, get?_after_empty, held?_append_other hother, ← get?_after_empty]
      rfl
    rw [← emit_builtin, Registry.emit, hget, Registry.emit]

example : (empty.after [.register .go, .register .php, .register ⟨"go", "", none, Request.url⟩,
    .register .java, .unregister "go", .register .go]).ids = ["php", "java", "go"] := by decide

end CurlCode.Registry
