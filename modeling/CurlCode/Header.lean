import CurlCode.Text.Ascii

/-!
Header lists. A name is put under its exact spelling: putting a name that is there
replaces the value and keeps the place, a new name goes to the end. So names stay
distinct (`nodup_names_put`) and keep the order in which they first came. Looking a
header up disregards letter case and finds the first one.
-/
namespace CurlCode

open Text

structure Header where
  name : String
  value : String
  deriving DecidableEq, Repr

abbrev Headers := List Header

namespace Headers

def names (hs : Headers) : List String := hs.map Header.name

def put (name value : String) : Headers → Headers
  | [] => [⟨name, value⟩]
  | h :: hs => if h.name = name then ⟨name, value⟩ :: hs else h :: put name value hs

def ofPairs (pairs : List (String × String)) : Headers :=
  pairs.foldl (fun hs p => put p.1 p.2 hs) []

/-- The first value under this name, in any letter case. -/
def lookup? (name : String) (hs : Headers) : Option String :=
  (hs.find? fun h => sameLetters h.name name).map Header.value

/-- Some header has this name, in any letter case. -/
def has (name : String) (hs : Headers) : Bool := (lookup? name hs).isSome

/-- The headers of this name, in any letter case. -/
def named (key : String) (hs : Headers) : Headers := hs.filter fun h => sameLetters h.name key

theorem names_put (n v : String) (hs : Headers) :
    names (put n v hs) = if n ∈ names hs then names hs else names hs ++ [n] := by
  induction hs with
  | nil => simp [put, names]
  | cons h hs ih =>
    by_cases hn : h.name = n
    · simp [put, names, hn]
    · have ih' : (put n v hs).map Header.name
          = if n ∈ hs.map Header.name then hs.map Header.name else hs.map Header.name ++ [n] := ih
      by_cases hm : n ∈ hs.map Header.name
      · rw [if_pos hm] at ih'
        simp [names, put, hn, ih', List.mem_map.1 hm]
      · rw [if_neg hm] at ih'
        have hm' : n ∉ (h :: hs).map Header.name := by
          simp only [List.map_cons, List.mem_cons, not_or]
          exact ⟨Ne.symm hn, hm⟩
        simp only [names, put, hn, if_false, List.map_cons, ih']
        rw [if_neg (by simpa using hm')]
        rfl

theorem nodup_names_put (n v : String) {hs : Headers} (h : (names hs).Nodup) :
    (names (put n v hs)).Nodup := by
  rw [names_put]
  split
  · exact h
  · next hn =>
    have hd : ∀ a ∈ names hs, ∀ b ∈ [n], a ≠ b := by
      intro a ha b hb hab
      rw [List.mem_singleton] at hb
      exact hn (hb ▸ hab ▸ ha)
    exact List.nodup_append.2 ⟨h, by simp, hd⟩

theorem has_eq_any (name : String) (hs : Headers) :
    has name hs = hs.any fun h => sameLetters h.name name := by
  induction hs with
  | nil => rfl
  | cons h hs ih =>
    simp only [has, lookup?, Option.isSome_map] at ih
    cases hc : sameLetters h.name name <;> simp [has, lookup?, hc, ih]

theorem named_append (key : String) (a b : Headers) :
    named key (a ++ b) = named key a ++ named key b := List.filter_append ..

theorem named_put (key n v : String) (hs : Headers) :
    named key (hs.put n v) =
      if sameLetters n key then (named key hs).put n v else named key hs := by
  induction hs with
  | nil => cases hn : sameLetters n key <;> simp [named, put, hn]
  | cons a hs ih =>
    rw [put]
    by_cases hname : a.name = n
    · cases hn : sameLetters n key <;> simp [named, put, hname, hn]
    · rw [if_neg hname]
      simp only [named, List.filter_cons] at ih ⊢
      rw [ih]
      cases ha : sameLetters a.name key <;> cases hn : sameLetters n key <;>
        simp [put, hname]

end Headers

end CurlCode
