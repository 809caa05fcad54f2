import CurlCode.Proofs.Target.TextRecovery

/-!
JSON literals are read back. The literal of a value, at whatever depth it starts, is read
as that value and no other (`readLiteral?_render`), in each language that has literals for
JSON values.
-/
namespace CurlCode

open Source

namespace Json

/-- The value that a literal spells: the whole text is one value with blanks around it. -/
def readLiteral? (q : Quoting) (d : Dialect) (text : String) : Option Json :=
  let ls := Place.outside.lexemes q text.toList
  if Place.outside.after q text.toList = .outside then
    match read d ls.length ls with
    | some (v, k) => if skipBlanks k = [] then some v else none
    | none => none
  else none

section Length

variable {q : Quoting} {d : Dialect} (hd : d.Readable q)
include hd

theorem length_word_pos {w : String × Json} (hw : w ∈ d.words) (depth : Nat) :
    0 < (lexemes q (w.2.source d depth)).length := by
  obtain ⟨hsource, htext⟩ := source_word hw depth
  obtain ⟨c, hc, -⟩ := solid_of_mem_words hd hw
  have hne : w.1.toList ≠ [] := by
    intro hnil
    simp [hnil] at hc
  rw [hsource, lexemes_cons, Fragment.lexemes_text (hd.markless _ htext)]
  simpa [plain, List.length_pos_iff] using hne

theorem length_lt_brackets {opening closing : String} (hopen : opening ∈ d.texts)
    (hclose : closing ∈ d.texts) (s : Source) (depth : Nat) :
    (lexemes q s).length < (lexemes q (.concat
      [[.text opening, "\n"], s, [d.indentation depth, .text closing]])).length := by
  have h := congrArg List.length (lexemes_brackets hd hopen hclose s depth [])
  simp only [List.length_append, List.length_map, List.length_singleton, List.length_nil] at h
  omega

end Length

mutual

/-- Every value takes a lexeme at least, so there are steps enough to read it. -/
theorem weight_le_length {q : Quoting} {d : Dialect} (hd : d.Readable q) :
    ∀ (v : Json) (depth : Nat), weight v ≤ (lexemes q (v.source d depth)).length
  | .null, depth => length_word_pos hd (w := (d.null, .null)) (by simp [Dialect.words]) depth
  | .bool true, depth =>
    length_word_pos hd (w := (d.yes, .bool true)) (by simp [Dialect.words]) depth
  | .bool false, depth =>
    length_word_pos hd (w := (d.no, .bool false)) (by simp [Dialect.words]) depth
  | .number m, depth => by
    have hpos := List.length_pos_iff.2 m.text_ne_nil
    rw [source, lexemes_cons, Fragment.lexemes_text (markless_number q m), plain,
      String.toList_ofList, lexemes_nil, List.append_nil, List.length_map, weight]
    exact hpos
  | .string s, depth => Nat.le_refl 1
  | .array [], depth =>
    length_word_pos hd (w := (d.emptyArray, .array [])) (by simp [Dialect.words]) depth
  | .object [], depth =>
    length_word_pos hd (w := (d.emptyObject, .object [])) (by simp [Dialect.words]) depth
  | .array (v :: vs), depth => by
    have hopen : d.arrayOpen ∈ d.texts := by simp [Dialect.texts]
    have hclose : d.arrayClose ∈ d.texts := by simp [Dialect.texts]
    have hitems := itemsWeight_le_length hd (v :: vs) depth
    have hbrackets := length_lt_brackets hd hopen hclose (itemsSource d depth (v :: vs)) depth
    rw [weight, source]
    omega
  | .object (m :: ms), depth => by
    have hopen : d.objectOpen ∈ d.texts := by simp [Dialect.texts]
    have hclose : d.objectClose ∈ d.texts := by simp [Dialect.texts]
    have hmembers := membersWeight_le_length hd (m :: ms) depth
    have hbrackets := length_lt_brackets hd hopen hclose (membersSource d depth (m :: ms)) depth
    rw [weight, source]
    omega

theorem itemsWeight_le_length {q : Quoting} {d : Dialect} (hd : d.Readable q) :
    ∀ (vs : List Json) (depth : Nat), itemsWeight vs ≤ (lexemes q (itemsSource d depth vs)).length
  | [], _ => Nat.le_refl 0
  | v :: vs, depth => by
    have hv := weight_le_length hd v (depth + 1)
    have hvs := itemsWeight_le_length hd vs depth
    simp only [itemsWeight, itemsSource, lexemes_cons, lexemes_append, List.length_append]
    omega

theorem membersWeight_le_length {q : Quoting} {d : Dialect} (hd : d.Readable q) :
    ∀ (ms : List Member) (depth : Nat),
      membersWeight ms ≤ (lexemes q (membersSource d depth ms)).length
  | [], _ => Nat.le_refl 0
  | (key, v) :: ms, depth => by
    have hv := weight_le_length hd v (depth + 1)
    have hms := membersWeight_le_length hd ms depth
    simp only [membersWeight, membersSource, lexemes_cons, lexemes_append, List.length_append]
    omega

end

theorem readLiteral?_source {q : Quoting} {d : Dialect} (hd : d.Readable q) (v : Json)
    (depth : Nat) : readLiteral? q d ((v.source d depth).render q) = some v := by
  obtain ⟨hafter, hlexemes⟩ := lexemes_render (markless_source hd.markless depth v).closed
  have hend : Ended [] := by simp [Ended]
  have hread := read_source hd v depth _ [] (weight_le_length hd v depth) hend
  rw [List.append_nil] at hread
  simp only [readLiteral?, hafter, if_true, hlexemes, hread]
  rfl

end Json

namespace Language

/-- The literals of JSON values; the other two languages take JSON as text. -/
def dialect? : Language → Option Json.Dialect
  | .python => some Python.dialect
  | .javaScript | .axios => some JavaScript.dialect
  | .go => some Go.dialect
  | .rust => some Rust.dialect
  | .php => some Php.dialect
  | .ruby => some Ruby.dialect
  | .swift => some Swift.dialect
  | .java | .cSharp => none

theorem readable_of_dialect? {l : Language} {d : Json.Dialect} (h : l.dialect? = some d) :
    d.Readable l.quoting := by
  cases l with
  | python => exact Option.some.inj h ▸ Python.readable_dialect
  | javaScript => exact Option.some.inj h ▸ JavaScript.readable_dialect
  | axios => exact Option.some.inj h ▸ JavaScript.readable_dialect
  | go => exact Option.some.inj h ▸ Go.readable_dialect
  | rust => exact Option.some.inj h ▸ Rust.readable_dialect
  | php => exact Option.some.inj h ▸ Php.readable_dialect
  | ruby => exact Option.some.inj h ▸ Ruby.readable_dialect
  | swift => exact Option.some.inj h ▸ Swift.readable_dialect
  | java => cases h
  | cSharp => cases h

/-- Reading a literal gives the value that it was written for, so different values have
different literals, also where objects and arrays share their brackets. -/
theorem readLiteral?_render {l : Language} {d : Json.Dialect} (h : l.dialect? = some d) :
    (∀ (v : Json) (depth : Nat),
      Json.readLiteral? l.quoting d ((v.source d depth).render l.quoting) = some v) ∧
    ∀ (v w : Json) (depth depth' : Nat),
      (v.source d depth).render l.quoting = (w.source d depth').render l.quoting → v = w := by
  have hread := Json.readLiteral?_source (readable_of_dialect? h)
  refine ⟨hread, ?_⟩
  intro v w depth depth' heq
  have hw := hread w depth'
  rw [← heq, hread v depth] at hw
  exact Option.some.inj hw

/-- A PHP array of an empty object and a list that holds a string like a key. -/
theorem readLiteral?_render_php :
    let v : Json := .object [("a'", .object []), ("b", .array [.string "c' => ", .null])]
    let text := "[\n    'a\\'' => new \\stdClass(),\n    'b' => [\n" ++
      "        'c\\' => ',\n        null\n    ]\n]"
    php.dialect? = some Php.dialect ∧ (v.source Php.dialect 0).render .single = text ∧
      Json.readLiteral? .single Php.dialect text = some v := by
  intro v text
  have htext : (v.source Php.dialect 0).render .single = text := by decide
  refine ⟨rfl, htext, ?_⟩
  rw [← htext]
  exact (@readLiteral?_render .php Php.dialect rfl).1 v 0

end Language

end CurlCode
