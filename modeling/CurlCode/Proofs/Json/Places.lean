import CurlCode.Proofs.Json.Acceptance

/-!
The places in a value: the items of an array and the values of an object, level by level. No
object in a value that was read has a key twice (`distinctKeys_of_parse?`).
-/
namespace CurlCode.Json

/-- The items of an array or the values of an object, in order. -/
def children : Json → List Json
  | .array vs => vs
  | .object ms => ms.map Prod.snd
  | .null | .bool _ | .number _ | .string _ => []

/-- The value at a place, which is told by the number of the child on each level. -/
def at? (v : Json) : List Nat → Option Json
  | [] => some v
  | i :: path => v.children[i]?.bind fun u => u.at? path

@[simp] theorem at?_cons (v : Json) (i : Nat) (path : List Nat) :
    v.at? (i :: path) = v.children[i]?.bind fun u => u.at? path := rfl

/-- What holds of a value and passes on to children holds at every place. -/
theorem at?_induction {p : Json → Prop} (hchild : ∀ v, p v → ∀ u ∈ v.children, p u)
    {v : Json} (hv : p v) {path : List Nat} {u : Json} (h : v.at? path = some u) : p u := by
  induction path generalizing v with
  | nil => exact Option.some.inj h ▸ hv
  | cons i path ih =>
    obtain ⟨w, hw, h⟩ := Option.bind_eq_some_iff.1 h
    exact ih (hchild v hv w (List.mem_of_getElem? hw)) h

/-- The keys of an object. -/
def ownKeys : Json → List String
  | .object ms => keys ms
  | .null | .bool _ | .number _ | .string _ | .array _ => []

/-- What kind of container a value is, with the keys of an object. -/
inductive Container where
  | array
  | object (keys : List String)
  deriving DecidableEq, Repr

def container? : Json → Option Container
  | .array _ => some .array
  | .object ms => some (.object (keys ms))
  | .null | .bool _ | .number _ | .string _ => none

/-- No object in the value has a key twice. -/
def DistinctKeys (v : Json) : Prop := ∀ path u, v.at? path = some u → u.ownKeys.Nodup

theorem DistinctKeys.ownKeys {v : Json} (h : v.DistinctKeys) : v.ownKeys.Nodup := h [] v rfl

theorem DistinctKeys.child {v : Json} (h : v.DistinctKeys) {i : Nat} {u : Json}
    (hu : v.children[i]? = some u) : u.DistinctKeys := by
  intro path w hw
  exact h (i :: path) w (by simp [hu, hw])

/-! ### Values that were read -/

theorem itemsMeaning?_mem {vs us : List Json} (h : itemsMeaning? vs = some us) :
    ∀ u ∈ us, ∃ v, meaning? v = some u := by
  induction vs generalizing us with
  | nil =>
    obtain rfl := Option.some.inj h
    simp
  | cons v vs ih =>
    obtain ⟨u, hu, h⟩ := Option.bind_eq_some_iff.1 h
    obtain ⟨us, hus, rfl⟩ := Option.map_eq_some_iff.1 h
    exact List.forall_mem_cons.2 ⟨⟨v, hu⟩, ih hus⟩

theorem nodup_of_objectOf? {ms ns : List Member}
    (h : Reader.objectOf? ms = some (.object ns)) : (keys ns).Nodup := by
  cases ms with
  | nil =>
    obtain rfl : [] = ns := by simpa [Reader.objectOf?] using h
    exact List.nodup_nil
  | cons m ms =>
    obtain ⟨key, v⟩ := m
    by_cases hkey : key = numberKey
    · subst hkey
      obtain ⟨n, hn⟩ := objectOf?_numberKey h
      cases hn
    · rw [objectOf?_cons hkey, Option.some.injEq, Json.object.injEq] at h
      exact h ▸ nodup_keys_putMembers (by simp [keys]) ms

/-- A value that something stands for. -/
def IsMeant (v : Json) : Prop := ∃ u, meaning? u = some v

theorem IsMeant.child {v : Json} (h : IsMeant v) : ∀ u ∈ v.children, IsMeant u := by
  obtain ⟨w, hw⟩ := h
  cases w with
  | null | bool | number | string =>
    obtain rfl := Option.some.inj hw
    simp [children]
  | array vs =>
    obtain ⟨us, hus, rfl⟩ := Option.map_eq_some_iff.1 hw
    exact itemsMeaning?_mem hus
  | object ms =>
    obtain ⟨ns, hns, hobject⟩ := Option.bind_eq_some_iff.1 hw
    obtain ⟨n, rfl⟩ | ⟨os, rfl, -, hos⟩ := objectOf?_cases hobject
    · simp [children]
    · intro u hu
      obtain ⟨m, hm, rfl⟩ := List.mem_map.1 hu
      exact ⟨m.2, (membersMeaning?_meaning hns (hos m hm)).1⟩

theorem IsMeant.nodup {v : Json} (h : IsMeant v) : v.ownKeys.Nodup := by
  obtain ⟨w, hw⟩ := h
  cases w with
  | null | bool | number | string =>
    obtain rfl := Option.some.inj hw
    exact List.nodup_nil
  | array vs =>
    obtain ⟨us, -, rfl⟩ := Option.map_eq_some_iff.1 hw
    exact List.nodup_nil
  | object ms =>
    obtain ⟨ns, -, hobject⟩ := Option.bind_eq_some_iff.1 hw
    obtain ⟨n, rfl⟩ | ⟨os, rfl, hself, -⟩ := objectOf?_cases hobject
    · exact List.nodup_nil
    · exact nodup_of_objectOf? hself

theorem distinctKeys_of_parse? {s : String} {v : Json} (h : parse? s = some v) :
    v.DistinctKeys := by
  obtain ⟨w, -, -, hw⟩ := parse?_eq_some_iff.1 h
  intro path u hu
  exact (at?_induction (fun _ => IsMeant.child) ⟨w, hw⟩ hu).nodup

end CurlCode.Json
