import CurlCode.Json.Dialect
import CurlCode.Proofs.Json.Numeral
import CurlCode.Proofs.Outline

/-!
JSON values up to the text of their strings and keys. That text goes into literals and
nowhere else, so it leaves the outline of a value's source alone (`outline_blank`).
-/
namespace CurlCode.Json

mutual

/-- The value with empty strings and keys. -/
def blank : Json → Json
  | .string _ => .string ""
  | .array vs => .array (blankItems vs)
  | .object ms => .object (blankMembers ms)
  | .null => .null
  | .bool b => .bool b
  | .number n => .number n

def blankItems : List Json → List Json
  | [] => []
  | v :: vs => blank v :: blankItems vs

def blankMembers : List Member → List Member
  | [] => []
  | (_, v) :: ms => ("", blank v) :: blankMembers ms

end

mutual

/-- The strings and keys, in order. -/
def strings : Json → List String
  | .string s => [s]
  | .array vs => itemStrings vs
  | .object ms => memberStrings ms
  | .null | .bool _ | .number _ => []

def itemStrings : List Json → List String
  | [] => []
  | v :: vs => strings v ++ itemStrings vs

def memberStrings : List Member → List String
  | [] => []
  | (key, v) :: ms => key :: (strings v ++ memberStrings ms)

end

theorem isEmpty_blankItems (vs : List Json) : (blankItems vs).isEmpty = vs.isEmpty := by
  cases vs <;> rfl

theorem isEmpty_blankMembers (ms : List Member) : (blankMembers ms).isEmpty = ms.isEmpty := by
  cases ms <;> rfl

open Source

mutual

theorem outline_blank (d : Dialect) (depth : Nat) :
    ∀ v : Json, outline ((blank v).source d depth) = outline (v.source d depth)
  | .null | .bool _ | .number _ | .string _ | .array [] | .object [] => rfl
  | .array (v :: vs) => by
    have h := outline_blankItems d depth (v :: vs)
    simp only [blank, blankItems, source, concat_cons, outline_append] at h ⊢
    rw [h]
  | .object (m :: ms) => by
    have h := outline_blankMembers d depth (m :: ms)
    obtain ⟨key, v⟩ := m
    simp only [blank, blankMembers, source, concat_cons, outline_append] at h ⊢
    rw [h]

theorem outline_blankItems (d : Dialect) (depth : Nat) :
    ∀ vs : List Json, outline (itemsSource d depth (blankItems vs)) =
      outline (itemsSource d depth vs)
  | [] => rfl
  | v :: vs => by
    have h := outline_blank d (depth + 1) v
    have hs := outline_blankItems d depth vs
    simp only [blankItems, itemsSource, Dialect.indentation, Dialect.lineEnd, outline_text,
      outline_append, isEmpty_blankItems, h, hs]

theorem outline_blankMembers (d : Dialect) (depth : Nat) :
    ∀ ms : List Member, outline (membersSource d depth (blankMembers ms)) =
      outline (membersSource d depth ms)
  | [] => rfl
  | (key, v) :: ms => by
    have h := outline_blank d (depth + 1) v
    have hs := outline_blankMembers d depth ms
    simp only [blankMembers, membersSource, Dialect.indentation, Dialect.lineEnd, outline_text,
      outline_literal, outline_append, isEmpty_blankMembers, h, hs]

end

theorem outline_eq_of_blank_eq {v w : Json} (h : blank v = blank w) (d : Dialect)
    (depth : Nat) : outline (v.source d depth) = outline (w.source d depth) := by
  rw [← outline_blank, h, outline_blank]

theorem isArray_blank (v : Json) : (blank v).isArray = v.isArray := by
  cases v <;> rfl

theorem isContainer_blank (v : Json) : (blank v).isContainer = v.isContainer := by
  cases v <;> rfl

/-! ### Dialects without marks -/

/-- All texts that a dialect puts outside literals, numbers apart. -/
def Dialect.texts (d : Dialect) : List String :=
  [d.objectOpen, d.objectClose, d.emptyObject, d.arrayOpen, d.arrayClose, d.emptyArray,
    d.keySeparator, d.null, d.yes, d.no, d.indent]

def Dialect.Markless (q : Quoting) (d : Dialect) : Prop := ∀ t ∈ d.texts, q.mark ∉ t.toList

instance (q : Quoting) (d : Dialect) : Decidable (d.Markless q) :=
  inferInstanceAs (Decidable (∀ t ∈ d.texts, q.mark ∉ t.toList))

theorem markless_number (q : Quoting) (n : Numeral) :
    q.mark ∉ (String.ofList n.text).toList := by
  rw [String.toList_ofList]
  intro h
  have hchar := Numeral.isNumeralChar_of_mem h
  revert hchar
  cases q <;> decide

theorem Dialect.Markless.indentation {q : Quoting} {d : Dialect} (h : d.Markless q)
    (depth : Nat) : q.mark ∉ (String.join (List.replicate depth d.indent)).toList := by
  have hindent := h d.indent (by simp [texts])
  induction depth with
  | zero => simp
  | succ depth _ => simp [List.replicate_succ, hindent]

theorem markless_lineEnd (q : Quoting) (d : Dialect) (last : Bool) :
    q.mark ∉ (if last && !d.trailingComma then "\n" else ",\n").toList := by
  split <;> cases q <;> decide

mutual

theorem markless_source {q : Quoting} {d : Dialect} (h : d.Markless q) (depth : Nat) :
    ∀ v : Json, Source.Markless q (v.source d depth)
  | .null => by simpa [source] using h d.null (by simp [Dialect.texts])
  | .bool true => by simpa [source] using h d.yes (by simp [Dialect.texts])
  | .bool false => by simpa [source] using h d.no (by simp [Dialect.texts])
  | .number n => by simpa [source] using markless_number q n
  | .string s => by simp [source]
  | .array [] => by simpa [source] using h d.emptyArray (by simp [Dialect.texts])
  | .object [] => by simpa [source] using h d.emptyObject (by simp [Dialect.texts])
  | .array (v :: vs) => by
    have hopen := h d.arrayOpen (by simp [Dialect.texts])
    have hclose := h d.arrayClose (by simp [Dialect.texts])
    have hline : q.mark ∉ "\n".toList := by cases q <;> decide
    simp only [source, Dialect.indentation, Source.concat_cons, Source.concat_nil,
      Source.markless_text, Source.markless_append, Source.markless_nil, and_true]
    exact ⟨⟨hopen, hline⟩, markless_itemsSource h depth (v :: vs), h.indentation _, hclose⟩
  | .object (m :: ms) => by
    have hopen := h d.objectOpen (by simp [Dialect.texts])
    have hclose := h d.objectClose (by simp [Dialect.texts])
    have hline : q.mark ∉ "\n".toList := by cases q <;> decide
    simp only [source, Dialect.indentation, Source.concat_cons, Source.concat_nil,
      Source.markless_text, Source.markless_append, Source.markless_nil, and_true]
    exact ⟨⟨hopen, hline⟩, markless_membersSource h depth (m :: ms), h.indentation _, hclose⟩

theorem markless_itemsSource {q : Quoting} {d : Dialect} (h : d.Markless q) (depth : Nat) :
    ∀ vs : List Json, Source.Markless q (itemsSource d depth vs)
  | [] => by simp [itemsSource]
  | v :: vs => by
    have hv := markless_source h (depth + 1) v
    have hvs := markless_itemsSource h depth vs
    simp only [itemsSource, Dialect.indentation, Dialect.lineEnd, Source.markless_text,
      Source.markless_append]
    exact ⟨h.indentation _, hv, markless_lineEnd q d _, hvs⟩

theorem markless_membersSource {q : Quoting} {d : Dialect} (h : d.Markless q) (depth : Nat) :
    ∀ ms : List Member, Source.Markless q (membersSource d depth ms)
  | [] => by simp [membersSource]
  | (key, v) :: ms => by
    have hv := markless_source h (depth + 1) v
    have hms := markless_membersSource h depth ms
    simp only [membersSource, Dialect.indentation, Dialect.lineEnd, Source.markless_text,
      Source.markless_literal, Source.markless_append]
    exact ⟨h.indentation _, h d.keySeparator (by simp [Dialect.texts]), hv,
      markless_lineEnd q d _, hms⟩

end

mutual

theorem literals_source (d : Dialect) (depth : Nat) :
    ∀ v : Json, literals (v.source d depth) = v.strings
  | .bool b => by cases b <;> rfl
  | .null | .number _ | .string _ | .array [] | .object [] => by
    simp [source, strings, itemStrings, memberStrings]
  | .array (v :: vs) => by
    have h := literals_itemsSource d depth (v :: vs)
    simpa [source, strings, Dialect.indentation] using h
  | .object (m :: ms) => by
    have h := literals_membersSource d depth (m :: ms)
    simpa [source, strings, Dialect.indentation] using h

theorem literals_itemsSource (d : Dialect) (depth : Nat) :
    ∀ vs : List Json, literals (itemsSource d depth vs) = itemStrings vs
  | [] => rfl
  | v :: vs => by
    simp [itemsSource, itemStrings, Dialect.indentation, Dialect.lineEnd,
      literals_source d (depth + 1) v, literals_itemsSource d depth vs]

theorem literals_membersSource (d : Dialect) (depth : Nat) :
    ∀ ms : List Member, literals (membersSource d depth ms) = memberStrings ms
  | [] => rfl
  | (key, v) :: ms => by
    simp [membersSource, memberStrings, Dialect.indentation, Dialect.lineEnd,
      literals_source d (depth + 1) v, literals_membersSource d depth ms]

end

end CurlCode.Json
