import CurlCode.Command
import CurlCode.Proofs.Command.Cut
import CurlCode.Proofs.Command.Step
import CurlCode.Proofs.Form
import Mathlib.Data.List.DropRight

/-!
What a command line asks for, read off its occurrences without walking over them: of
every kind the last one counts. The walk comes to the same (`request_of_cut`).
-/
namespace CurlCode

open Text

/-- What the last occurrence of a kind says. -/
def lastOf (kind : Occurrence → Option α) (os : List Occurrence) : Option α :=
  (os.filterMap kind).getLast?

theorem lastOf_concat (kind : Occurrence → Option α) (os : List Occurrence) (o : Occurrence) :
    lastOf kind (os ++ [o]) = (kind o).or (lastOf kind os) := by
  rw [lastOf, List.filterMap_append, List.getLast?_append, lastOf]
  cases h : kind o <;> simp [h]

theorem lastOf_rel {R : α → β → Prop} {kind : Occurrence → Option α} {kind' : Occurrence → Option β}
    (h : ∀ o, Option.Rel R (kind o) (kind' o)) (os : List Occurrence) :
    Option.Rel R (lastOf kind os) (lastOf kind' os) := by
  induction os using List.reverseRecOn with
  | nil => exact .none
  | append_singleton os o ih =>
    have ho := h o
    rw [lastOf_concat, lastOf_concat]
    generalize kind o = a, kind' o = b at ho ⊢
    cases ho with
    | some hr => exact .some hr
    | none => exact ih

/-- The argument of an occurrence that gives data, with its flag. -/
def Occurrence.dataArgument? : Occurrence → Option (Flag × String)
  | .valued .data _ value => some (.data, value)
  | .valued .json _ value => some (.json, value)
  | .valued .dataUrlEncode _ value => some (.dataUrlEncode, value)
  | _ => none

/-- The data that a flag makes of its argument: the argument itself, or its content in the
encoding of URLs, behind the name that it may have. -/
inductive Flag.Gives : Flag → String → String → Prop
  | itself {flag : Flag} (plain : flag ≠ .dataUrlEncode) (argument : String) :
    Gives flag argument argument
  | encoded {argument kept content encoded : String}
    (cut : Form.ArgumentCut argument kept content)
    (written : Form.UrlEncoded (utf8 content) encoded.toList) :
    Gives .dataUrlEncode argument (kept ++ encoded)

theorem Occurrence.gives_data (o : Occurrence) :
    Option.Rel (fun a d => a.1.Gives a.2 d) o.dataArgument? o.data? := by
  cases o with
  | valued flag token value =>
    cases flag with
    | data | json => exact .some (.itself (by simp) value)
    | dataUrlEncode =>
      obtain ⟨kept, content, hcut, hencode⟩ := Form.encodeArgument_eq value
      rw [dataArgument?, data?, hencode]
      exact .some (.encoded hcut (Form.urlEncoded_encodeText content))
    | _ => exact .none
  | _ => exact .none

/-- A token that can stand for the URL. -/
def Occurrence.bareUrl? : Occurrence → Option String
  | .bare token => if token = "" then none else some token
  | _ => none

/-- The occurrences after the last `--url`, or all of them if there is none. -/
def sinceUrl (os : List Occurrence) : List Occurrence := os.rtakeWhile fun o => o.url?.isNone

/-- The URL before a query is added: the value of the last `--url`, or else, if that is empty
or there is none, the first bare token after it that is not empty. -/
def baseUrl? (os : List Occurrence) : Option String :=
  ((lastOf Occurrence.url? os).filter (· ≠ "")).or ((sinceUrl os).findSome? Occurrence.bareUrl?)

theorem baseUrl?_concat (os : List Occurrence) (o : Occurrence) :
    baseUrl? (os ++ [o]) =
      if o.url?.isSome then o.url?.filter (· ≠ "") else (baseUrl? os).or o.bareUrl? := by
  rw [baseUrl?, lastOf_concat, sinceUrl, List.rtakeWhile_concat]
  cases h : o.url? with
  | some value => simp
  | none => simp [baseUrl?, sinceUrl, List.findSome?_append, Option.or_assoc]

namespace Walk

theorem method_after (os : List Occurrence) :
    (after os).method = lastOf Occurrence.method? os := by
  induction os using List.reverseRecOn with
  | nil => rfl
  | append_singleton os o ih => rw [after_concat, lastOf_concat, ← ih, next]

theorem data_after (os : List Occurrence) : (after os).data = lastOf Occurrence.data? os := by
  induction os using List.reverseRecOn with
  | nil => rfl
  | append_singleton os o ih => rw [after_concat, lastOf_concat, ← ih, next]

theorem dataInQuery_after (os : List Occurrence) :
    (after os).dataInQuery = decide (.switch .get ∈ os) := by
  induction os using List.reverseRecOn with
  | nil => rfl
  | append_singleton os o ih =>
    rw [after_concat, next, ih]
    simp [Bool.or_comm, eq_comm]

theorem filter_urlAfter (url : Option String) (o : Occurrence) :
    (o.urlAfter url).filter (· ≠ "") =
      if o.url?.isSome then o.url?.filter (· ≠ "")
      else (url.filter (· ≠ "")).or o.bareUrl? := by
  cases o with
  | bare token =>
    rw [Occurrence.urlAfter, Occurrence.bareUrl?]
    cases url with
    | none => by_cases htoken : token = "" <;> simp [Occurrence.url?, htoken]
    | some url =>
      by_cases hurl : url = "" <;> by_cases htoken : token = "" <;>
        simp [Occurrence.url?, Option.filter_some, hurl, htoken]
  | valued flag token value =>
    cases flag <;> simp [Occurrence.urlAfter, Occurrence.url?, Occurrence.bareUrl?]
  | _ => simp [Occurrence.urlAfter, Occurrence.url?, Occurrence.bareUrl?]

theorem url_after (os : List Occurrence) :
    (after os).url.filter (· ≠ "") = baseUrl? os := by
  induction os using List.reverseRecOn with
  | nil => rfl
  | append_singleton os o ih => rw [after_concat, next, filter_urlAfter, baseUrl?_concat, ih]

theorem finish_eq (w : Walk) :
    w.finish = match w.url.filter (· ≠ "") with
      | some url => .ok ⟨w.inferredMethod, w.fullUrl url, w.headers, w.body⟩
      | none => .error .missingUrl := by
  rw [finish]
  cases w.url with
  | none => rfl
  | some url => by_cases hurl : url = "" <;> simp [Option.filter_some, hurl]

end Walk

namespace Command

/-- The command that occurrences make, however many headers they have; `none` without a URL. -/
def ofOccurrences? (os : List Occurrence) : Option Command :=
  (baseUrl? os).map fun url =>
    ⟨⟨(Walk.after os).inferredMethod, (Walk.after os).fullUrl url, (Walk.after os).headers,
      (Walk.after os).body⟩, (Walk.after os).ignored.toList⟩

/-- What becomes of arguments, limit by limit. -/
theorem ofTokens_cons (limits : Limits) (name : String) (arguments : List String) :
    ofTokens limits (name :: arguments) =
      if sameLetters name "curl" then
        if (Walk.after (Occurrence.ofTokens arguments)).headers.length ≤ limits.headers then
          (ofOccurrences? (Occurrence.ofTokens arguments)).elim (.error .missingUrl) .ok
        else .error (.tooManyHeaders limits.headers)
      else .error (.notCurl name) := by
  rw [ofTokens, Walk.foldlM_read_start, Walk.within, ofOccurrences?]
  split
  · split
    · simp only [bind, Except.bind, Walk.finish_eq, Walk.url_after]
      cases baseUrl? (Occurrence.ofTokens arguments) <;> rfl
    · rfl
  · rfl

/-- A command line that is accepted has as many headers as are admitted, and its occurrences
make the command. -/
theorem ofTokens_eq_ok {limits : Limits} {tokens : List String} {c : Command}
    (h : ofTokens limits tokens = .ok c) :
    (Walk.after (Occurrence.ofTokens tokens.tail)).headers.length ≤ limits.headers ∧
      ofOccurrences? (Occurrence.ofTokens tokens.tail) = some c := by
  cases tokens with
  | nil => simp [ofTokens] at h
  | cons name arguments =>
    rw [ofTokens_cons] at h
    split at h
    · split at h
      · next hroom =>
        refine ⟨hroom, ?_⟩
        rw [List.tail_cons]
        cases hd : ofOccurrences? (Occurrence.ofTokens arguments) with
        | none => simp [hd] at h
        | some d =>
          obtain rfl : d = c := by simpa [hd] using h
          rfl
      · simp at h
    · simp at h

/-- The command that a cut makes. -/
theorem command_of_cut {limits : Limits} {tokens : List String} {os : List Occurrence}
    {c : Command} (hcut : Cut tokens.tail os) (h : ofTokens limits tokens = .ok c) :
    ∃ url, baseUrl? os = some url ∧
      c = ⟨⟨(Walk.after os).inferredMethod, (Walk.after os).fullUrl url, (Walk.after os).headers,
        (Walk.after os).body⟩, (Walk.after os).ignored.toList⟩ := by
  obtain ⟨-, hc⟩ := ofTokens_eq_ok h
  rw [cut_iff.1 hcut, ofOccurrences?, Option.map_eq_some_iff] at hc
  obtain ⟨url, hurl, rfl⟩ := hc
  exact ⟨url, hurl, rfl⟩

/-- The request is told by the last method, the last data and the URL of the cut, with the data
in the query if some `-G` asks for that. -/
theorem request_of_cut {limits : Limits} {tokens : List String} {os : List Occurrence}
    {c : Command} (hcut : Cut tokens.tail os) (h : ofTokens limits tokens = .ok c) :
    ∃ data url,
      Option.Rel (fun a d => a.1.Gives a.2 d) (lastOf Occurrence.dataArgument? os) data ∧
      baseUrl? os = some url ∧
      c.request.method = (lastOf Occurrence.method? os).getD
        (if c.request.body.isSome then "POST" else "GET") ∧
      c.request.body = (if .switch .get ∈ os then none else data) ∧
      c.request.url = if .switch .get ∈ os then data.elim url (Walk.withQuery url) else url := by
  obtain ⟨url, hurl, rfl⟩ := command_of_cut hcut h
  refine ⟨lastOf Occurrence.data? os, url, lastOf_rel Occurrence.gives_data os, hurl, ?_, ?_, ?_⟩
  · simp only [Walk.inferredMethod, Walk.method_after]
  · simp only [Walk.body, Walk.dataInQuery_after, Walk.data_after, decide_eq_true_eq]
  · simp only [Walk.fullUrl, Walk.dataInQuery_after, Walk.data_after]
    by_cases hget : .switch .get ∈ os <;> cases lastOf Occurrence.data? os <;> simp [hget]

/-- An empty `--url` drops the URL before it, `-I` is the value of `-X`, and the last `-X` has
no value. -/
theorem request_of_cut_dangling :
    let tokens := ["Curl", "a", "--url", "", "b", "--data-urlencode", "q=a b", "-X", "-I", "-G",
      "-X"]
    let os : List Occurrence := [.bare "a", .valued .url "--url" "", .bare "b",
      .valued .dataUrlEncode "--data-urlencode" "q=a b", .valued .method "-X" "-I", .switch .get,
      .stray "-X"]
    Cut tokens.tail os ∧ ofTokens {} tokens = .ok ⟨⟨"-I", "b?q=a%20b", [], none⟩, ["-X"]⟩ ∧
      ∃ data, Flag.Gives .dataUrlEncode "q=a b" data ∧ "b?q=a%20b" = Walk.withQuery "b" data := by
  intro tokens os
  have hcut : Cut tokens.tail os := cut_iff.2 (by decide +kernel)
  have hc : ofTokens {} tokens = .ok ⟨⟨"-I", "b?q=a%20b", [], none⟩, ["-X"]⟩ := by rfl
  obtain ⟨data, url, hgives, hbase, -, -, hurl⟩ := request_of_cut hcut hc
  have hlast : lastOf Occurrence.dataArgument? os = some (.dataUrlEncode, "q=a b") := by
    decide +kernel
  have hbase' : baseUrl? os = some "b" := by decide +kernel
  obtain rfl : "b" = url := Option.some.inj (hbase'.symm.trans hbase)
  rw [hlast] at hgives
  cases hgives with
  | some hdata => exact ⟨hcut, hc, _, hdata, hurl⟩

end Command

end CurlCode
