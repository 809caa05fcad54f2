import CurlCode.Command.Walk

/-!
The walk without its limit: what one occurrence adds to what has been read
(`Walk.next`). The walk with a limit makes the same steps, and it fails if and only if
they end with more headers than the limit admits (`foldlM_read`).
-/
namespace CurlCode

open Text

namespace Headers

/-- Put one header after the other. -/
def putAll (hs : Headers) (new : List Header) : Headers :=
  new.foldl (fun hs h => hs.put h.name h.value) hs

@[simp] theorem putAll_nil (hs : Headers) : putAll hs [] = hs := rfl
@[simp] theorem putAll_cons (hs : Headers) (h : Header) (new : List Header) :
    putAll hs (h :: new) = putAll (hs.put h.name h.value) new := rfl
theorem putAll_append (hs : Headers) (a b : List Header) :
    putAll hs (a ++ b) = putAll (putAll hs a) b := List.foldl_append

theorem length_names (hs : Headers) : hs.names.length = hs.length := List.length_map _

theorem length_put (n v : String) (hs : Headers) :
    (hs.put n v).length = if n ∈ hs.names then hs.length else hs.length + 1 := by
  rw [← length_names, names_put]
  split
  · exact length_names hs
  · rw [List.length_append, length_names, List.length_singleton]

theorem length_le_put (n v : String) (hs : Headers) : hs.length ≤ (hs.put n v).length := by
  rw [length_put]
  split <;> omega

theorem length_le_putAll (new : List Header) (hs : Headers) :
    hs.length ≤ (hs.putAll new).length := by
  induction new generalizing hs with
  | nil => exact Nat.le_refl _
  | cons h new ih => exact Nat.le_trans (length_le_put h.name h.value hs) (ih _)

theorem mem_names_put {m n v : String} {hs : Headers} :
    m ∈ (hs.put n v).names ↔ m = n ∨ m ∈ hs.names := by
  rw [names_put]
  split
  · next hn =>
    constructor
    · exact .inr
    · rintro (rfl | hm)
      · exact hn
      · exact hm
  · rw [List.mem_append, List.mem_singleton, or_comm]

theorem mem_names_putAll {n : String} {new : List Header} {hs : Headers} :
    n ∈ names (putAll hs new) ↔ n ∈ names hs ∨ n ∈ names new := by
  induction new generalizing hs with
  | nil => simp [names]
  | cons h new ih =>
    have hnames : names (h :: new) = h.name :: names new := rfl
    rw [putAll_cons, ih, mem_names_put, hnames, List.mem_cons, or_assoc, or_left_comm]

end Headers

/-! ### What an occurrence says -/

namespace Occurrence

def method? : Occurrence → Option String
  | .valued .method _ value => some value
  | .switch .head => some "HEAD"
  | _ => none

def data? : Occurrence → Option String
  | .valued .data _ value | .valued .json _ value => some value
  | .valued .dataUrlEncode _ value => some (Form.encodeArgument value)
  | _ => none

/-- The URL of a `--url`. -/
def url? : Occurrence → Option String
  | .valued .url _ value => some value
  | _ => none

/-- The URL after this occurrence. A bare token gives way to a URL that is not empty. -/
def urlAfter (url : Option String) : Occurrence → Option String
  | .valued .url _ value => some value
  | .bare token => if url.getD "" = "" ∧ token ≠ "" then some token else url
  | _ => url

/-- The default header of this name, unless one of that name is there, in any letter case. -/
def missing (present : List Header) (name : String) : List Header :=
  if present.any fun h => sameLetters h.name name then [] else [⟨name, "application/json"⟩]

/-- The headers that are inserted, given those that are there. -/
def insertions (present : List Header) : Occurrence → List Header
  | .valued .header _ line =>
    match cut? ':' line.toList with
    | some (name, value) => [⟨trim (String.ofList name), trim (String.ofList value)⟩]
    | none => []
  | .valued .userAgent _ value => [⟨"User-Agent", value⟩]
  | .valued .referer _ value => [⟨"Referer", value⟩]
  | .valued .json _ _ =>
    let contentType := missing present "Content-Type"
    contentType ++ missing (present ++ contentType) "Accept"
  | _ => []

theorem missing_congr {a b : List Header} (h : ∀ n, n ∈ Headers.names a ↔ n ∈ Headers.names b)
    (name : String) : missing a name = missing b name := by
  have hany : (a.any fun h => sameLetters h.name name) =
      b.any fun h => sameLetters h.name name := by
    rw [Bool.eq_iff_iff]
    simp only [List.any_eq_true]
    simp only [Headers.names, List.mem_map] at h
    constructor
    · rintro ⟨x, hx, hsame⟩
      obtain ⟨y, hy, hname⟩ := (h x.name).1 ⟨x, hx, rfl⟩
      exact ⟨y, hy, hname ▸ hsame⟩
    · rintro ⟨y, hy, hsame⟩
      obtain ⟨x, hx, hname⟩ := (h y.name).2 ⟨y, hy, rfl⟩
      exact ⟨x, hx, hname ▸ hsame⟩
  rw [missing, missing, hany]

/-- Only the names that are there make a difference. -/
theorem insertions_congr {a b : List Header}
    (h : ∀ n, n ∈ Headers.names a ↔ n ∈ Headers.names b) (o : Occurrence) :
    o.insertions a = o.insertions b := by
  have happend (c : List Header) (n : String) :
      n ∈ Headers.names (a ++ c) ↔ n ∈ Headers.names (b ++ c) := by
    have hn := h n
    simp only [Headers.names, List.map_append, List.mem_append] at hn ⊢
    rw [hn]
  cases o with
  | valued flag token value =>
    cases flag with
    | json =>
      rw [insertions, insertions, missing_congr h, missing_congr (happend _)]
    | _ => rfl
  | _ => rfl

/-- The tokens that say nothing, given the URL so far. -/
def leftOut (url : Option String) : Occurrence → List String
  | .bare token => if url.getD "" = "" ∧ token ≠ "" then [] else [token]
  | .valued .header token line => if ':' ∈ line.toList then [] else [token, line]
  | .valued .skipped token value => [token, value]
  | .stray token => [token]
  | _ => []

end Occurrence

namespace Walk

/-- One occurrence more, whatever number of headers that makes. -/
def next (w : Walk) (o : Occurrence) : Walk where
  method := o.method?.or w.method
  url := o.urlAfter w.url
  headers := w.headers.putAll (o.insertions w.headers)
  data := o.data?.or w.data
  dataInQuery := o = .switch .get || w.dataInQuery
  ignored := (o.leftOut w.url).foldl Array.push w.ignored

/-- The walk, unless it has more headers than that. -/
def within (limit : Nat) (w : Walk) : Except CommandError Walk :=
  if w.headers.length ≤ limit then .ok w else .error (.tooManyHeaders limit)

section Limit

variable {limit : Nat} {w : Walk} (hw : w.headers.length ≤ limit)
include hw

theorem within_of_headers {w' : Walk} (h : w'.headers = w.headers) :
    within limit w' = .ok w' := by
  rw [within, if_pos (h ▸ hw)]

/-- A step that inserts nothing stays within the limit. -/
theorem read_quiet {o : Occurrence} (hnone : o.insertions w.headers = [])
    (hread : w.read limit o = .ok (w.next o)) : w.read limit o = within limit (w.next o) := by
  have hheaders : (w.next o).headers = w.headers := by rw [next, hnone, Headers.putAll_nil]
  rw [hread, within_of_headers hw hheaders]

theorem putHeader_eq (n v : String) :
    w.putHeader limit n v = within limit { w with headers := w.headers.put n v } := by
  rw [putHeader, within, Headers.length_put]
  by_cases hn : n ∈ w.headers.names
  · simp [hn, hw]
  · by_cases hl : limit ≤ w.headers.length
    · have hl' : ¬ w.headers.length + 1 ≤ limit := by omega
      simp [hn, hl, hl']
    · have hl' : w.headers.length + 1 ≤ limit := by omega
      simp [hn, hl, hl']

theorem putDefault_eq (n : String) :
    w.putDefault limit n "application/json" =
      within limit { w with headers := w.headers.putAll (Occurrence.missing w.headers n) } := by
  rw [putDefault, Occurrence.missing, ← Headers.has_eq_any]
  split
  · exact (within_of_headers hw rfl).symm
  · exact putHeader_eq hw n _

theorem read_json (token value : String) :
    w.read limit (.valued .json token value) =
      within limit (w.next (.valued .json token value)) := by
  have hfirst := putDefault_eq (w := { w with data := some value }) hw "Content-Type"
  have hsame (n : String) :
      n ∈ Headers.names (w.headers ++ Occurrence.missing w.headers "Content-Type") ↔
      n ∈ Headers.names (w.headers.putAll (Occurrence.missing w.headers "Content-Type")) := by
    rw [Headers.mem_names_putAll]
    simp [Headers.names]
  have hnext : w.next (.valued .json token value) =
      { w with
        data := some value
        headers := (w.headers.putAll (Occurrence.missing w.headers "Content-Type")).putAll
          (Occurrence.missing
            (w.headers.putAll (Occurrence.missing w.headers "Content-Type")) "Accept") } := by
    rw [next, Occurrence.insertions, Occurrence.missing_congr hsame, Headers.putAll_append]
    rfl
  rw [hnext, read, readValued, hfirst]
  by_cases hroom : (w.headers.putAll (Occurrence.missing w.headers "Content-Type")).length ≤ limit
  · rw [within, if_pos hroom]
    exact putDefault_eq hroom "Accept"
  · have hgrow := Headers.length_le_putAll
      (Occurrence.missing (w.headers.putAll (Occurrence.missing w.headers "Content-Type")) "Accept")
      (w.headers.putAll (Occurrence.missing w.headers "Content-Type"))
    rw [within, within, if_neg hroom, if_neg fun h => hroom (Nat.le_trans hgrow h)]
    rfl

theorem read_header (token line : String) :
    w.read limit (.valued .header token line) =
      within limit (w.next (.valued .header token line)) := by
  cases hcut : cut? ':' line.toList with
  | none =>
    have hcolon : ':' ∉ line.toList := cut?_eq_none.1 hcut
    refine read_quiet hw (by rw [Occurrence.insertions, hcut]) ?_
    rw [read, readValued, headerOfLine?, hcut, next, Occurrence.insertions, hcut,
      Occurrence.leftOut, if_neg hcolon]
    rfl
  | some parts =>
    obtain ⟨name, value⟩ := parts
    have hcolon : ':' ∈ line.toList := by simp [(cut?_eq_some hcut).1]
    have hnext : w.next (.valued .header token line) = { w with
        headers := w.headers.put (trim (String.ofList name)) (trim (String.ofList value)) } := by
      rw [next, Occurrence.insertions, hcut, Occurrence.leftOut, if_pos hcolon]
      rfl
    rw [hnext, ← putHeader_eq hw, trim, trim, String.toList_ofList, String.toList_ofList, read,
      readValued, headerOfLine?, hcut]
    rfl

theorem read_bare (token : String) :
    w.read limit (.bare token) = within limit (w.next (.bare token)) := by
  refine read_quiet hw rfl ?_
  rw [read, next, Occurrence.urlAfter, Occurrence.leftOut, readBare]
  split <;> rfl

/-- A step within the limit is a step without it. -/
theorem read_eq_next (o : Occurrence) : w.read limit o = within limit (w.next o) := by
  cases o with
  | bare token => exact read_bare hw token
  | switch flag => cases flag <;> exact read_quiet hw rfl rfl
  | stray token => exact read_quiet hw rfl rfl
  | valued flag token value =>
    cases flag with
    | header => exact read_header hw token value
    | json => exact read_json hw token value
    | userAgent => exact putHeader_eq hw "User-Agent" value
    | referer => exact putHeader_eq hw "Referer" value
    | _ => exact read_quiet hw rfl rfl

end Limit

theorem length_headers_le_next (w : Walk) (o : Occurrence) :
    w.headers.length ≤ (w.next o).headers.length := Headers.length_le_putAll _ _

theorem length_headers_le_foldl (os : List Occurrence) (w : Walk) :
    w.headers.length ≤ (os.foldl next w).headers.length := by
  induction os generalizing w with
  | nil => exact Nat.le_refl _
  | cons o os ih => exact Nat.le_trans (length_headers_le_next w o) (ih (w.next o))

/-- A run within the limit makes the steps of the run without it. -/
theorem foldlM_read {limit : Nat} (os : List Occurrence) {w : Walk}
    (hw : w.headers.length ≤ limit) :
    os.foldlM (read limit) w = within limit (os.foldl next w) := by
  induction os generalizing w with
  | nil => exact (within_of_headers hw rfl).symm
  | cons o os ih =>
    rw [List.foldlM_cons, List.foldl_cons, read_eq_next hw]
    by_cases hnext : (w.next o).headers.length ≤ limit
    · rw [within, if_pos hnext]
      exact ih hnext
    · have hrest := length_headers_le_foldl os (w.next o)
      rw [within, within, if_neg hnext, if_neg (by omega)]
      rfl

/-- What has been read after these occurrences. -/
def after (os : List Occurrence) : Walk := os.foldl next .start

@[simp] theorem after_nil : after [] = .start := rfl
theorem after_concat (os : List Occurrence) (o : Occurrence) :
    after (os ++ [o]) = (after os).next o := List.foldl_append

theorem foldlM_read_start (limit : Nat) (os : List Occurrence) :
    os.foldlM (read limit) .start = within limit (after os) :=
  foldlM_read os (Nat.zero_le limit)

end Walk

end CurlCode
