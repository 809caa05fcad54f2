import CurlCode.Proofs.Quotation
import CurlCode.Proofs.Target.Literals

/-!
The lines of C# literals. A literal of C# must not hold a new-line character, and C# counts
U+2028 and U+2029 among these. The others are always escaped; the two separators stand in a
literal wherever they stand in its text (`newLines_in_literals`).
-/
namespace CurlCode

open Source

namespace Place

variable (q : Quoting)

/-- The literal that a character closes, as it is written between its marks. -/
def closes : Place → Char → List (List Char)
  | .inside w, c => if c = q.mark then [w] else []
  | .outside, _ | .guarded _, _ => []

/-- The literals of a program, as they are written. -/
def written : Place → List Char → List (List Char)
  | _, [] => []
  | p, c :: s => p.closes q c ++ written (p.step q c) s

theorem written_append (p : Place) (s t : List Char) :
    p.written q (s ++ t) = p.written q s ++ (p.after q s).written q t := by
  induction s generalizing p with
  | nil => rfl
  | cons c s ih => simp [written, ih]

/-- The strings that are read are those that the written literals stand for. -/
theorem decoded_lexemes (p : Place) (s : List Char) :
    decoded (p.lexemes q s) = (p.written q s).map fun w => (q.unescape w).map String.ofList := by
  induction s generalizing p with
  | nil => rfl
  | cons c s ih =>
    have hone : decoded (p.completes q c) =
        (p.closes q c).map fun w => (q.unescape w).map String.ofList := by
      cases p with
      | outside | inside w =>
        simp only [completes, closes]
        split <;> rfl
      | guarded w => rfl
    rw [lexemes_cons, decoded_append, ih, hone, written, List.map_append]

theorem written_eq_nil {p : Place} {s : List Char} (h : decoded (p.lexemes q s) = []) :
    p.written q s = [] := by
  rw [decoded_lexemes] at h
  exact List.map_eq_nil_iff.1 h

theorem written_literal (s : List Char) :
    Place.outside.written q (q.literal s) = [s.flatMap q.escape] := by
  obtain ⟨hafter, hlexemes⟩ := contained_flatMap_escape q s []
  have hinside : (Place.inside []).written q (s.flatMap q.escape) = [] :=
    written_eq_nil q (by rw [hlexemes]; rfl)
  rw [List.nil_append] at hafter
  simp [Quoting.literal, written, closes, step, written_append, hafter, hinside]

end Place

/-- The literals of a source are written as its strings with their escapes. -/
theorem Source.Markless.written {q : Quoting} {s : Source} (h : Markless q s) :
    Place.outside.written q (render q s).toList =
      (literals s).map fun t => t.toList.flatMap q.escape := by
  induction s with
  | nil => simp [Place.written]
  | cons f s ih =>
    rw [render_cons, String.toList_append, Place.written_append]
    cases f with
    | text t =>
      obtain ⟨ht, hs⟩ := (markless_text q t s).1 h
      obtain ⟨hafter, hlexemes⟩ := lexemes_of_not_mem ht
      have hnone : Place.outside.written q t.toList = [] :=
        Place.written_eq_nil q (by rw [hlexemes]; exact decoded_plain t)
      rw [Fragment.render, hafter, hnone, ih hs, literals_text, List.nil_append]
    | literal t =>
      have hs := (markless_literal q t s).1 h
      obtain ⟨hafter, -⟩ := lexemes_literal q t.toList
      rw [Fragment.render, Quoting.quote, String.toList_ofList, hafter, Place.written_literal, ih hs,
        literals_literal]
      rfl

namespace CSharp

/-- The new-line characters of C#. -/
def newLines : List Char := ['\n', '\r', '\u0085', '\u2028', '\u2029']

/-- The line separator and the paragraph separator, which are no control characters. -/
def separators : List Char := ['\u2028', '\u2029']

/-- The literals of the program for a request, as they are written. -/
def writtenLiterals (r : Request) : List (List Char) :=
  Place.outside.written .double (Target.cSharp.emit r).toList

theorem writtenLiterals_eq (r : Request) :
    writtenLiterals r =
      (Language.cSharp.literals r).map fun t => t.toList.flatMap Quoting.double.escape := by
  rw [writtenLiterals, ← literals_source]
  exact (markless_source r).written

theorem mem_newLines_iff {c : Char} (h : Quoting.Visible c) : c ∈ newLines ↔ c ∈ separators := by
  have hlines : ∀ d ∈ newLines, Quoting.Visible d → d ∈ separators := by
    simp [newLines, separators, Quoting.Visible]
  have hseparators : ∀ d ∈ separators, d ∈ newLines := by simp [newLines, separators]
  exact ⟨fun hc => hlines c hc h, hseparators c⟩

theorem not_isControl_of_mem_separators : ∀ c ∈ separators, ¬ Quoting.isControl c := by
  simp [separators, Quoting.isControl]

theorem filter_fourDigits : ∀ n < 0xA0,
    ('\\' :: 'u' :: Text.hexPadded 4 n).filter (· ∈ newLines) = [] := by
  decide +kernel

/-- Escaping leaves no new-line character but a separator. -/
theorem filter_escape (c : Char) :
    (Quoting.double.escape c).filter (· ∈ newLines) = [c].filter (· ∈ separators) := by
  rw [Quoting.escape, Quoting.escapeDouble]
  split_ifs with h₁ h₂ h₃ h₄ h₅ h₆
  · subst h₁; decide
  · subst h₂; decide
  · subst h₃; decide
  · subst h₄; decide
  · subst h₅; decide
  · have hc : c ∉ separators := fun hc => not_isControl_of_mem_separators c hc h₆
    rw [filter_fourDigits _ (Quoting.toNat_lt_of_isControl h₆)]
    simp [hc]
  · have hc := mem_newLines_iff (Quoting.visible_of_not_isControl h₆)
    simp only [List.filter_cons, List.filter_nil, hc]

theorem filter_flatMap_escape (s : List Char) :
    (s.flatMap Quoting.double.escape).filter (· ∈ newLines) = s.filter (· ∈ separators) := by
  induction s with
  | nil => rfl
  | cons c s ih =>
    rw [List.flatMap_cons, List.filter_append, filter_escape, ih, ← List.filter_append,
      List.singleton_append]

theorem filter_writtenLiterals (r : Request) :
    (writtenLiterals r).map (·.filter (· ∈ newLines)) =
      (Language.cSharp.literals r).map fun t => t.toList.filter (· ∈ separators) := by
  rw [writtenLiterals_eq, List.map_map]
  exact List.map_congr_left fun t _ => filter_flatMap_escape t.toList

/-- The new-line characters of the literals are the separators of their texts, in order: no line
feed, carriage return or U+0085 stands in a literal, and each is on one line if and only if its
text holds no separator. -/
theorem newLines_in_literals (r : Request) :
    (writtenLiterals r).map (·.filter (· ∈ newLines)) =
      (Language.cSharp.literals r).map (fun t => t.toList.filter (· ∈ separators)) ∧
    (∀ w ∈ writtenLiterals r, ∀ c ∈ w, c ∈ newLines → c ∈ separators) ∧
    ((∀ w ∈ writtenLiterals r, ∀ c ∈ w, c ∉ newLines) ↔
      ∀ t ∈ Language.cSharp.literals r, ∀ c ∈ t.toList, c ∉ separators) := by
  have hfilter := filter_writtenLiterals r
  refine ⟨hfilter, ?_, ?_⟩
  · intro w hw c hc hline
    have hmem : w.filter (· ∈ newLines) ∈ (writtenLiterals r).map (·.filter (· ∈ newLines)) :=
      List.mem_map_of_mem hw
    rw [hfilter] at hmem
    obtain ⟨t, -, ht⟩ := List.mem_map.1 hmem
    have hkept : c ∈ t.toList.filter (· ∈ separators) := ht ▸ List.mem_filter.2 ⟨hc, by simpa⟩
    simpa using (List.mem_filter.1 hkept).2
  · have hempty := congrArg (fun ls => ∀ l ∈ ls, l = []) hfilter
    simpa [List.filter_eq_nil_iff] using hempty

/-- A line separator in the URL stands in its literal as it is. -/
theorem newLines_separator :
    let r : Request := ⟨"GET", "http://h/\u2028", [], none⟩
    ∃ w ∈ writtenLiterals r, ∃ c ∈ w, c ∈ newLines := by
  intro r
  have hwritten : writtenLiterals r = ["http://h/\u2028".toList] := by
    rw [writtenLiterals_eq]
    decide +kernel
  exact ⟨_, hwritten ▸ List.mem_singleton_self _, '\u2028', by decide +kernel⟩

end CSharp

end CurlCode
