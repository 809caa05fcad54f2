import CurlCode.Json.Reader
import Mathlib.Data.List.Nodup

/-!
What a value that is written down stands for. Of several members with one key the last one
counts, in the place of the first, and an object that starts with `numberKey` stands for a
number or for nothing. What a value stands for stands for itself and nests no deeper
(`meaning?_meaning`).
-/
namespace CurlCode.Json

mutual

/-- How deep the containers of a value nest. -/
def depth : Json → Nat
  | .null | .bool _ | .number _ | .string _ => 0
  | .array vs => itemsDepth vs + 1
  | .object ms => membersDepth ms + 1

def itemsDepth : List Json → Nat
  | [] => 0
  | v :: vs => max (depth v) (itemsDepth vs)

def membersDepth : List Member → Nat
  | [] => 0
  | (_, v) :: ms => max (depth v) (membersDepth ms)

end

mutual

/-- The value that a written one stands for. -/
def meaning? : Json → Option Json
  | .null => some .null
  | .bool b => some (.bool b)
  | .number n => some (.number n)
  | .string s => some (.string s)
  | .array vs => (itemsMeaning? vs).map .array
  | .object ms => (membersMeaning? ms).bind Reader.objectOf?

def itemsMeaning? : List Json → Option (List Json)
  | [] => some []
  | v :: vs => (meaning? v).bind fun u => (itemsMeaning? vs).map (u :: ·)

def membersMeaning? : List Member → Option (List Member)
  | [] => some []
  | (key, v) :: ms => (meaning? v).bind fun u => (membersMeaning? ms).map ((key, u) :: ·)

end

/-! ### Members that replace each other -/

def keys (ms : List Member) : List String := ms.map Prod.fst

/-- Put one member after another. -/
def putMembers (ms ns : List Member) : List Member :=
  ns.foldl (fun ms m => putMember m.1 m.2 ms) ms

theorem putMember_of_not_mem {key : String} {ms : List Member} (h : key ∉ keys ms) (v : Json) :
    putMember key v ms = ms ++ [(key, v)] := by
  induction ms with
  | nil => rfl
  | cons m ms ih =>
    simp only [keys, List.map_cons, List.mem_cons, not_or] at h
    rw [putMember, if_neg (Ne.symm h.1), ih h.2, List.cons_append]

theorem keys_putMember_of_mem {key : String} {ms : List Member} (h : key ∈ keys ms) (v : Json) :
    keys (putMember key v ms) = keys ms := by
  induction ms with
  | nil => cases h
  | cons m ms ih =>
    by_cases hkey : m.1 = key
    · simp [putMember, keys, hkey]
    · have htail : key ∈ keys ms := by simpa [keys, Ne.symm hkey] using h
      simpa [putMember, keys, hkey] using ih htail

theorem mem_putMember {key : String} {v : Json} {m : Member} {ms : List Member}
    (h : m ∈ putMember key v ms) : m ∈ ms ∨ m = (key, v) := by
  induction ms with
  | nil => exact .inr (List.mem_singleton.1 h)
  | cons n ms ih =>
    rw [putMember] at h
    split at h
    · rcases List.mem_cons.1 h with rfl | h
      · exact .inr rfl
      · exact .inl (List.mem_cons_of_mem _ h)
    · rcases List.mem_cons.1 h with rfl | h
      · exact .inl List.mem_cons_self
      · exact (ih h).imp_left (List.mem_cons_of_mem _)

theorem nodup_keys_putMember {ms : List Member} (h : (keys ms).Nodup) (key : String) (v : Json) :
    (keys (putMember key v ms)).Nodup := by
  by_cases hmem : key ∈ keys ms
  · rwa [keys_putMember_of_mem hmem]
  · rw [putMember_of_not_mem hmem, keys, List.map_append]
    exact List.concat_eq_append ▸ List.Nodup.concat hmem h

theorem nodup_keys_putMembers {ms : List Member} (h : (keys ms).Nodup) (ns : List Member) :
    (keys (putMembers ms ns)).Nodup := by
  induction ns generalizing ms with
  | nil => exact h
  | cons n ns ih => exact ih (nodup_keys_putMember h n.1 n.2)

theorem mem_putMembers {m : Member} {ms ns : List Member} (h : m ∈ putMembers ms ns) :
    m ∈ ms ∨ m ∈ ns := by
  induction ns generalizing ms with
  | nil => exact .inl h
  | cons n ns ih =>
    rcases ih h with h | h
    · rcases mem_putMember h with h | rfl
      · exact .inl h
      · exact .inr List.mem_cons_self
    · exact .inr (List.mem_cons_of_mem n h)

/-- The first key stays the first. -/
theorem putMembers_cons (key : String) (v : Json) (ms ns : List Member) :
    ∃ u os, putMembers ((key, v) :: ms) ns = (key, u) :: os := by
  induction ns generalizing v ms with
  | nil => exact ⟨v, ms, rfl⟩
  | cons n ns ih =>
    obtain ⟨key', w⟩ := n
    by_cases hkey : key = key'
    · subst hkey
      simpa [putMembers, putMember] using ih w ms
    · simpa [putMembers, putMember, hkey] using ih v (putMember key' w ms)

/-- Where no key comes again, nothing is replaced. -/
theorem putMembers_of_nodup {ms ns : List Member} (h : (keys (ms ++ ns)).Nodup) :
    putMembers ms ns = ms ++ ns := by
  induction ns generalizing ms with
  | nil => simp [putMembers]
  | cons n ns ih =>
    have hnew : n.1 ∉ keys ms := by
      simp only [keys, List.map_append, List.map_cons] at h
      exact fun hmem => (List.nodup_append.1 h).2.2 _ hmem _ List.mem_cons_self rfl
    have hput : putMember n.1 n.2 ms = ms ++ [n] := putMember_of_not_mem hnew n.2
    calc putMembers ms (n :: ns)
      _ = putMembers (putMember n.1 n.2 ms) ns := rfl
      _ = ms ++ n :: ns := by rw [hput, ih (by simpa using h), List.append_assoc]; rfl

theorem objectOf?_cons {key : String} (h : key ≠ numberKey) (v : Json) (ms : List Member) :
    Reader.objectOf? ((key, v) :: ms) = some (.object (putMembers [(key, v)] ms)) := by
  rw [Reader.objectOf?.eq_def]
  simp only [if_neg h]
  rfl

theorem objectOf?_numberKey {v u : Json} {ms : List Member}
    (h : Reader.objectOf? ((numberKey, v) :: ms) = some u) : ∃ n, u = .number n := by
  rw [Reader.objectOf?.eq_def] at h
  simp only [if_true] at h
  split at h
  · obtain ⟨n, -, hn⟩ := Option.map_eq_some_iff.1 h
    exact ⟨n, hn.symm⟩
  · cases h

/-- An object stands for a number, or for one with some of its members and no key twice. -/
theorem objectOf?_cases {ms : List Member} {v : Json} (h : Reader.objectOf? ms = some v) :
    (∃ n, v = .number n) ∨
      ∃ ns, v = .object ns ∧ Reader.objectOf? ns = some (.object ns) ∧ ∀ n ∈ ns, n ∈ ms := by
  cases ms with
  | nil => exact .inr ⟨[], (Option.some.inj h).symm, rfl, by simp⟩
  | cons m ms =>
    obtain ⟨key, u⟩ := m
    by_cases hkey : key = numberKey
    · subst hkey
      exact .inl (objectOf?_numberKey h)
    · rw [objectOf?_cons hkey] at h
      obtain ⟨w, os, hput⟩ := putMembers_cons key u [] ms
      have hnodup : (keys (putMembers [(key, u)] ms)).Nodup :=
        nodup_keys_putMembers (by simp [keys]) ms
      rw [hput] at hnodup h
      have hself : putMembers [(key, w)] os = (key, w) :: os := putMembers_of_nodup hnodup
      refine .inr ⟨(key, w) :: os, (Option.some.inj h).symm, ?_, fun n hn => ?_⟩
      · rw [objectOf?_cons hkey, hself]
      · rw [← hput] at hn
        simpa using mem_putMembers hn

/-! ### Meanings of meanings -/

theorem membersMeaning?_eq_self {ms : List Member} (h : ∀ m ∈ ms, m.2.meaning? = some m.2) :
    membersMeaning? ms = some ms := by
  induction ms with
  | nil => rfl
  | cons m ms ih =>
    rw [membersMeaning?, h m (by simp), ih fun n hn => h n (by simp [hn])]
    rfl

theorem membersDepth_le_iff {ms : List Member} {limit : Nat} :
    membersDepth ms ≤ limit ↔ ∀ m ∈ ms, m.2.depth ≤ limit := by
  induction ms with
  | nil => simp [membersDepth]
  | cons m ms ih => rw [membersDepth, Nat.max_le, ih, List.forall_mem_cons]

mutual

theorem meaning?_meaning : ∀ {v u : Json}, v.meaning? = some u →
    u.meaning? = some u ∧ u.depth ≤ v.depth
  | .null, _, h | .bool _, _, h | .number _, _, h | .string _, _, h => by
    obtain rfl := Option.some.inj h
    exact ⟨rfl, Nat.le_refl _⟩
  | .array vs, _, h => by
    obtain ⟨us, hus, rfl⟩ := Option.map_eq_some_iff.1 h
    obtain ⟨hself, hdepth⟩ := itemsMeaning?_meaning hus
    exact ⟨by rw [meaning?, hself, Option.map_some], Nat.succ_le_succ hdepth⟩
  | .object ms, _, h => by
    obtain ⟨ns, hns, hobject⟩ := Option.bind_eq_some_iff.1 h
    obtain ⟨n, rfl⟩ | ⟨os, rfl, hself, hos⟩ := objectOf?_cases hobject
    · exact ⟨rfl, Nat.zero_le _⟩
    · have hmember {o : Member} (ho : o ∈ os) := membersMeaning?_meaning hns (hos o ho)
      have hmembers := membersMeaning?_eq_self fun o ho => (hmember ho).1
      have hdepth := membersDepth_le_iff.2 fun o ho => (hmember ho).2
      exact ⟨by rw [meaning?, hmembers, Option.bind_some, hself], Nat.succ_le_succ hdepth⟩

theorem itemsMeaning?_meaning : ∀ {vs us : List Json}, itemsMeaning? vs = some us →
    itemsMeaning? us = some us ∧ itemsDepth us ≤ itemsDepth vs
  | [], _, h => by
    obtain rfl := Option.some.inj h
    exact ⟨rfl, Nat.le_refl _⟩
  | v :: vs, _, h => by
    obtain ⟨u, hu, h⟩ := Option.bind_eq_some_iff.1 h
    obtain ⟨us, hus, rfl⟩ := Option.map_eq_some_iff.1 h
    obtain ⟨hself, hdepth⟩ := meaning?_meaning hu
    obtain ⟨hselves, hdepths⟩ := itemsMeaning?_meaning hus
    rw [itemsMeaning?, itemsDepth, itemsDepth, hself, hselves]
    exact ⟨rfl, by omega⟩

theorem membersMeaning?_meaning : ∀ {ms ns : List Member}, membersMeaning? ms = some ns →
    ∀ {n : Member}, n ∈ ns → n.2.meaning? = some n.2 ∧ n.2.depth ≤ membersDepth ms
  | [], _, h, _, hn => by
    obtain rfl := Option.some.inj h
    cases hn
  | (key, v) :: ms, _, h, n, hn => by
    obtain ⟨u, hu, h⟩ := Option.bind_eq_some_iff.1 h
    obtain ⟨ns, hns, rfl⟩ := Option.map_eq_some_iff.1 h
    rw [membersDepth]
    rcases List.mem_cons.1 hn with rfl | hn
    · obtain ⟨hself, hdepth⟩ := meaning?_meaning hu
      exact ⟨hself, Nat.le_trans hdepth (Nat.le_max_left _ _)⟩
    · obtain ⟨hself, hdepth⟩ := membersMeaning?_meaning hns hn
      exact ⟨hself, Nat.le_trans hdepth (Nat.le_max_right _ _)⟩

end

end CurlCode.Json
