import CurlCode.Proofs.Json.Places
import CurlCode.Proofs.Target.JsonLiteral
import Mathlib

/-!
What `json_encode` makes of the literals in a PHP script. Objects and lists are both arrays
there, told apart by their keys alone, and a key that is a whole number in decimal is that
number. So a literal is sent with the same containers as the value that it was written for,
except that an object whose keys count from zero is sent as an array (`sent_render`).
-/
namespace CurlCode.Php

open Json (keys)

/-! ### Keys -/

/-- The key of an entry. -/
inductive Key where
  | integer (n : Int)
  | text (s : String)
  deriving DecidableEq, Repr

namespace Key

/-- The integers of 64 bits. -/
def InRange (n : Int) : Prop := -2 ^ 63 ≤ n ∧ n < 2 ^ 63

instance (n : Int) : Decidable (InRange n) := inferInstanceAs (Decidable (_ ∧ _))

/-- A string that is the decimal form of an integer in range stands for the integer. -/
def ofString (s : String) : Key :=
  match s.toInt? with
  | some n => if n.repr = s ∧ InRange n then .integer n else .text s
  | none => .text s

/-- The name of an object's member that has this key. -/
def name : Key → String
  | .integer n => n.repr
  | .text s => s

theorem name_ofString (s : String) : (ofString s).name = s := by
  rw [ofString]
  split
  · split_ifs with h
    · exact h.1
    · rfl
  · rfl

theorem ofString_injective : Function.Injective ofString :=
  Function.LeftInverse.injective name_ofString

theorem ofString_repr {n : Int} (h : InRange n) : ofString n.repr = .integer n := by
  rw [ofString, Int.toInt?_repr]
  exact if_pos ⟨rfl, h⟩

theorem ofString_eq_integer_iff {s : String} {n : Int} :
    ofString s = .integer n ↔ s = n.repr ∧ InRange n := by
  refine ⟨fun h => ⟨?_, ?_⟩, fun ⟨hs, hn⟩ => hs ▸ ofString_repr hn⟩
  · rw [← name_ofString s, h, name]
  · rw [ofString] at h
    split at h
    · split_ifs at h with hn
      cases h
      exact hn.2
    · cases h

example : ["7", "07", "-0"].map ofString = [.integer 7, .text "07", .text "-0"] := by cbv

/-- The keys of a list with so many items. -/
def indices (n : Nat) : List Key := (List.range n).map fun (i : Nat) => .integer i

@[simp] theorem length_indices (n : Nat) : (indices n).length = n := by simp [indices]

end Key

/-- The keys of a list, as strings: `"0"`, `"1"` and so on, all of them in range. -/
def CountsFromZero (ks : List String) : Prop :=
  ks = (List.range ks.length).map Nat.repr ∧ ks.length ≤ 2 ^ 63

instance : DecidablePred CountsFromZero := fun _ => inferInstanceAs (Decidable (_ ∧ _))

theorem map_ofString_eq_indices_iff {ks : List String} :
    ks.map Key.ofString = Key.indices ks.length ↔ CountsFromZero ks := by
  constructor
  · intro h
    have hget (i : Nat) (hi : i < ks.length) : ks[i] = i.repr ∧ Key.InRange i := by
      have hkey : (ks.map Key.ofString)[i]? = (Key.indices ks.length)[i]? := by rw [h]
      exact Key.ofString_eq_integer_iff.1 (by simpa [Key.indices, hi] using hkey)
    refine ⟨List.ext_getElem (by simp) fun i hi _ => ?_, ?_⟩
    · simpa using (hget i hi).1
    · by_contra hlong
      have hlast := (hget (2 ^ 63) (by omega)).2.2
      omega
  · rintro ⟨hks, hlength⟩
    refine List.ext_getElem (by simp) fun i hi _ => ?_
    rw [List.length_map] at hi
    have hkey : ks[i] = i.repr := by
      have hget : ks[i]? = ((List.range ks.length).map Nat.repr)[i]? := by rw [← hks]
      simpa [hi] using hget
    have hinteger : Key.ofString i.repr = .integer i :=
      Key.ofString_repr (n := i) ⟨by omega, by omega⟩
    simpa [Key.indices, hkey] using hinteger

/-! ### Arrays -/

/-- Values of PHP, as far as literals go. Numbers keep their text: what becomes of them does
not bear on the containers. -/
inductive Value where
  | null
  | bool (b : Bool)
  | number (n : Json.Numeral)
  | string (s : String)
  | array (entries : List (Key × Value))
  /-- An instance of `stdClass` without properties. -/
  | emptyObject

/-- A value with its key. -/
abbrev Entry := Key × Value

/-- Set the entry of a key: in place if the key is there, otherwise at the end. -/
def putEntry (e : Entry) : List Entry → List Entry
  | [] => [e]
  | e' :: es => if e'.1 = e.1 then e :: es else e' :: putEntry e es

/-- The array that is built entry by entry. -/
def arrayOf (es : List Entry) : List Entry := es.foldl (fun built e => putEntry e built) []

/-- The array that is built without keys. -/
def listOf (vs : List Value) : List Entry := (Key.indices vs.length).zip vs

theorem putEntry_of_not_mem {e : Entry} {es : List Entry} (h : e.1 ∉ es.map Prod.fst) :
    putEntry e es = es ++ [e] := by
  induction es with
  | nil => rfl
  | cons e' es ih =>
    rw [List.map_cons, List.mem_cons, not_or] at h
    rw [putEntry, if_neg (Ne.symm h.1), ih h.2, List.cons_append]

theorem foldl_putEntry_of_nodup {es built : List Entry}
    (h : ((built ++ es).map Prod.fst).Nodup) :
    es.foldl (fun built e => putEntry e built) built = built ++ es := by
  induction es generalizing built with
  | nil => simp
  | cons e es ih =>
    have hnew : e.1 ∉ built.map Prod.fst := by
      intro hold
      rw [List.map_append, List.map_cons] at h
      exact (List.nodup_append.1 h).2.2 _ hold _ List.mem_cons_self rfl
    rw [List.append_cons] at h
    rw [List.foldl_cons, putEntry_of_not_mem hnew, ih h, ← List.append_cons]

theorem arrayOf_of_nodup {es : List Entry} (h : (es.map Prod.fst).Nodup) : arrayOf es = es :=
  foldl_putEntry_of_nodup h

/-! ### Evaluation -/

mutual

/-- The value of a literal. -/
def evaluate : Json → Value
  | .null => .null
  | .bool b => .bool b
  | .number n => .number n
  | .string s => .string s
  | .array vs => .array (listOf (evaluateItems vs))
  | .object [] => .emptyObject
  | .object (m :: ms) => .array (arrayOf (evaluateMembers (m :: ms)))

def evaluateItems : List Json → List Value
  | [] => []
  | v :: vs => evaluate v :: evaluateItems vs

def evaluateMembers : List Json.Member → List Entry
  | [] => []
  | (key, v) :: ms => (.ofString key, evaluate v) :: evaluateMembers ms

end

theorem evaluateItems_eq (vs : List Json) : evaluateItems vs = vs.map evaluate := by
  induction vs with
  | nil => rfl
  | cons v vs ih => rw [evaluateItems, ih, List.map_cons]

theorem evaluateMembers_eq (ms : List Json.Member) :
    evaluateMembers ms = ms.map fun m => (.ofString m.1, evaluate m.2) := by
  induction ms with
  | nil => rfl
  | cons m ms ih => rw [evaluateMembers, ih, List.map_cons]

theorem map_fst_evaluateMembers (ms : List Json.Member) :
    (evaluateMembers ms).map Prod.fst = (keys ms).map Key.ofString := by
  simp [evaluateMembers_eq, keys, Function.comp_def]

/-- Different keys stay different, so every member has its entry. -/
theorem arrayOf_evaluateMembers {ms : List Json.Member} (h : (keys ms).Nodup) :
    arrayOf (evaluateMembers ms) = evaluateMembers ms := by
  refine arrayOf_of_nodup ?_
  rw [map_fst_evaluateMembers]
  exact h.map Key.ofString_injective

/-! ### Encoding -/

/-- An array whose keys are those of a list is written as an array, any other as an object. -/
def encodeArray (es : List (Key × Json)) : Json :=
  if es.map Prod.fst = Key.indices es.length then .array (es.map Prod.snd)
  else .object (es.map fun e => (e.1.name, e.2))

mutual

/-- The value that `json_encode` writes. -/
def encode : Value → Json
  | .null => .null
  | .bool b => .bool b
  | .number n => .number n
  | .string s => .string s
  | .array es => encodeArray (encodeEntries es)
  | .emptyObject => .object []

def encodeEntries : List Entry → List (Key × Json)
  | [] => []
  | (key, v) :: es => (key, encode v) :: encodeEntries es

end

theorem encodeEntries_eq (es : List Entry) :
    encodeEntries es = es.map fun e => (e.1, encode e.2) := by
  induction es with
  | nil => rfl
  | cons e es ih => rw [encodeEntries, ih, List.map_cons]

theorem encodeArray_indices (vs : List Json) :
    encodeArray ((Key.indices vs.length).zip vs) = .array vs := by
  have hkeys : ((Key.indices vs.length).zip vs).map Prod.fst = Key.indices vs.length :=
    List.map_fst_zip (by simp)
  have hvalues : ((Key.indices vs.length).zip vs).map Prod.snd = vs := List.map_snd_zip (by simp)
  rw [encodeArray, if_pos (by rw [hkeys]; simp), hvalues]

theorem encodeArray_ofString (ms : List Json.Member) :
    encodeArray (ms.map fun m => (.ofString m.1, m.2)) =
      if CountsFromZero (keys ms) then .array (ms.map Prod.snd) else .object ms := by
  have hkeys : (ms.map fun m => (Key.ofString m.1, m.2)).map Prod.fst =
      (keys ms).map Key.ofString := by simp [keys, Function.comp_def]
  have hlength : (ms.map fun m => (Key.ofString m.1, m.2)).length = (keys ms).length := by
    simp [keys]
  rw [encodeArray, hkeys, hlength]
  simp [map_ofString_eq_indices_iff, Key.name_ofString, Function.comp_def]

/-- The value that is sent for a text which is a literal. -/
def sent? (text : String) : Option Json :=
  (Json.readLiteral? .single dialect text).map fun v => encode (evaluate v)

/-! ### What is sent for a value -/

/-- A non-empty object whose keys are those of a list. -/
def ListLike : Json → Prop
  | .object ms => ms ≠ [] ∧ CountsFromZero (keys ms)
  | .null | .bool _ | .number _ | .string _ | .array _ => False

instance : DecidablePred ListLike
  | .object [] => .isFalse fun h => h.1 rfl
  | .object (m :: ms) => decidable_of_iff (CountsFromZero (keys (m :: ms)))
      ⟨fun h => ⟨List.cons_ne_nil m ms, h⟩, And.right⟩
  | .null | .bool _ | .number _ | .string _ | .array _ => .isFalse id

theorem encode_evaluate_array (vs : List Json) :
    encode (evaluate (.array vs)) = .array (vs.map fun v => encode (evaluate v)) := by
  have hentries : encodeEntries (listOf (vs.map evaluate)) =
      (Key.indices (vs.map fun v => encode (evaluate v)).length).zip
        (vs.map fun v => encode (evaluate v)) := by
    rw [encodeEntries_eq, listOf]
    simp [List.zip_map_right]
  rw [evaluate, evaluateItems_eq, encode, hentries, encodeArray_indices]

theorem encode_evaluate_object {ms : List Json.Member} (h : (keys ms).Nodup) :
    encode (evaluate (.object ms)) =
      if ListLike (.object ms) then .array (ms.map fun m => encode (evaluate m.2))
      else .object (ms.map fun m => (m.1, encode (evaluate m.2))) := by
  cases ms with
  | nil => rfl
  | cons m ms =>
    have hentries : encodeEntries (evaluateMembers (m :: ms)) =
        ((m :: ms).map fun m => (m.1, encode (evaluate m.2))).map
          fun m => (.ofString m.1, m.2) := by
      rw [encodeEntries_eq, evaluateMembers_eq, List.map_map, List.map_map]
      rfl
    rw [evaluate, arrayOf_evaluateMembers h, encode, hentries, encodeArray_ofString]
    simp [ListLike, keys, Function.comp_def]

/-- What a container is sent as. -/
def sentAs? (v : Json) : Option Json.Container :=
  if ListLike v then some .array else v.container?

theorem children_encode_evaluate {v : Json} (h : v.ownKeys.Nodup) :
    (encode (evaluate v)).children = v.children.map fun u => encode (evaluate u) := by
  cases v with
  | null | bool | number | string => rfl
  | array vs => rw [encode_evaluate_array, Json.children, Json.children]
  | object ms =>
    rw [encode_evaluate_object h]
    split_ifs <;> simp [Json.children, Function.comp_def]

theorem container?_encode_evaluate {v : Json} (h : v.ownKeys.Nodup) :
    (encode (evaluate v)).container? = sentAs? v := by
  cases v with
  | null | bool | number | string => rfl
  | array vs => rw [encode_evaluate_array]; rfl
  | object ms =>
    rw [encode_evaluate_object h, sentAs?]
    split_ifs
    · rfl
    · simp [Json.container?, keys, Function.comp_def]

theorem at?_encode_evaluate {v : Json} (h : v.DistinctKeys) (path : List Nat) :
    (encode (evaluate v)).at? path = (v.at? path).map fun u => encode (evaluate u) := by
  induction path generalizing v with
  | nil => rfl
  | cons i path ih =>
    rw [Json.at?_cons, Json.at?_cons, children_encode_evaluate h.ownKeys, List.getElem?_map]
    cases hchild : v.children[i]? with
    | none => rfl
    | some u => exact ih (h.child hchild)

theorem sentAs?_eq_container?_iff {v : Json} : sentAs? v = v.container? ↔ ¬ ListLike v := by
  rw [sentAs?]
  split_ifs with h
  · cases v with
    | object ms => simp [h, Json.container?]
    | null | bool | number | string | array => exact h.elim
  · simp [h]

theorem sent?_source (v : Json) (depth : Nat) :
    sent? ((v.source dialect depth).render .single) = some (encode (evaluate v)) := by
  rw [sent?, Json.readLiteral?_source readable_dialect, Option.map_some]

/-- A literal is sent with the containers of its value, place by place, but for objects that are
like lists: so they are the same containers exactly if there is no such object. -/
theorem sent_render {v : Json} (h : v.DistinctKeys) (depth : Nat) :
    ∃ w, sent? ((v.source dialect depth).render .single) = some w ∧
      (∀ path, (w.at? path).map Json.container? = (v.at? path).map sentAs?) ∧
      ((∀ path, (w.at? path).map Json.container? = (v.at? path).map Json.container?) ↔
        ∀ path u, v.at? path = some u → ¬ ListLike u) := by
  have hsent (path : List Nat) :
      ((encode (evaluate v)).at? path).map Json.container? = (v.at? path).map sentAs? := by
    rw [at?_encode_evaluate h, Option.map_map]
    refine Option.map_congr fun u hu => ?_
    exact container?_encode_evaluate (h path u hu)
  refine ⟨encode (evaluate v), sent?_source v depth, hsent, ?_⟩
  simp only [hsent, ← sentAs?_eq_container?_iff]
  refine forall_congr' fun path => ?_
  cases v.at? path <;> simp

/-- Of four objects that are not empty only the one that counts in order is sent as an array:
the keys `00` and `-0` are not in decimal form. -/
theorem sent_render_nested :
    let counting : Json := .object [("0", .array []), ("1", .object [("-0", .null)])]
    let v : Json := .object [("00", .object []),
      ("a", .array [counting, .object [("1", .null), ("0", .bool true)]])]
    v.DistinctKeys ∧ ListLike counting ∧
      ∃ w, sent? ((v.source dialect 0).render .single) = some w ∧
        (∀ path, (w.at? path).map Json.container? = (v.at? path).map sentAs?) ∧
        (w.at? []).map Json.container? = some (some (.object ["00", "a"])) ∧
        (w.at? [1, 0]).map Json.container? = some (some .array) ∧
        (w.at? [1, 0, 1]).map Json.container? = some (some (.object ["-0"])) ∧
        (w.at? [1, 1]).map Json.container? = some (some (.object ["1", "0"])) := by
  intro counting v
  have hread : Json.parse?
      ("\x7b\"00\":\x7b\x7d,\"a\":[\x7b\"0\":[],\"1\":\x7b\"-0\":null\x7d\x7d," ++
        "\x7b\"1\":null,\"0\":true\x7d]\x7d") = some v := by cbv
  have hkeys : v.DistinctKeys := Json.distinctKeys_of_parse? hread
  obtain ⟨w, hw, hsent, -⟩ := sent_render hkeys 0
  refine ⟨hkeys, by decide, w, hw, hsent, ?_, ?_, ?_, ?_⟩
  · rw [hsent]; decide
  · rw [hsent]; decide
  · rw [hsent]; decide
  · rw [hsent]; decide

/-- An object whose only key is zero is sent as a list. -/
theorem sent_counting_object :
    let v : Json := .object [("0", .null)]
    let text := "[\n    '0' => null\n]"
    Json.parse? "\x7b\"0\":null\x7d" = some v ∧ (v.source dialect 0).render .single = text ∧
      sent? text = some (.array [.null]) := by
  intro v text
  have htext : (v.source dialect 0).render .single = text := by decide
  have hlist : ListLike v := by decide
  refine ⟨by cbv, htext, ?_⟩
  rw [← htext, sent?_source, encode_evaluate_object (by decide), if_pos hlist]
  rfl

end CurlCode.Php
