import CurlCode.Proofs.Command.Meaning

/-!
Data that is sent in the query. The text of a URL is a base, a query and a fragment
(`Divides`). The data goes to the end of that text, so it ends the query of a URL without a
fragment, and otherwise it ends the fragment (`data_in_query`).
-/
namespace CurlCode

open Text

namespace UrlText

/-! ### The parts of a URL -/

/-- The text before the first `?` or `#`. -/
def base (url : String) : List Char := url.toList.takeWhile fun c => c ≠ '?' ∧ c ≠ '#'

def beforeFragment (url : String) : List Char := url.toList.takeWhile (· ≠ '#')

/-- The text from the first `#` on, which is nothing if there is none. -/
def fragment (url : String) : List Char := url.toList.dropWhile (· ≠ '#')

/-- The text after the first `?`, up to the fragment. A `?` in the fragment is no mark. -/
def query? (url : String) : Option (List Char) := (cut? '?' (beforeFragment url)).map Prod.snd

/-- A query behind its mark. -/
def marked : Option (List Char) → List Char
  | none => []
  | some query => '?' :: query

structure Divides (url : String) (base : List Char) (query : Option (List Char))
    (fragment : List Char) : Prop where
  text : url.toList = base ++ (marked query ++ fragment)
  noQuery : '?' ∉ base
  noFragment : '#' ∉ base ++ marked query
  fragment : ∀ c ∈ fragment.head?, c = '#'

theorem takeWhile_stop {p : Char → Bool} {s t : List Char} (hs : ∀ c ∈ s, p c)
    (ht : ∀ c ∈ t.head?, p c = false) :
    (s ++ t).takeWhile p = s ∧ (s ++ t).dropWhile p = t := by
  rw [List.takeWhile_append_of_pos hs, List.dropWhile_append_of_pos hs]
  cases t with
  | nil => simp
  | cons c t => simp [ht c rfl]

theorem exists_divides (url : String) : ∃ b q f, Divides url b q f := by
  obtain ⟨front, f, htext, hfront, hf⟩ : ∃ front f, url.toList = front ++ f ∧ '#' ∉ front ∧
      ∀ c ∈ f.head?, c = '#' := by
    cases hcut : cut? '#' url.toList with
    | none => exact ⟨url.toList, [], by simp, cut?_eq_none.1 hcut, by simp⟩
    | some parts =>
      obtain ⟨hurl, hfirst⟩ := cut?_eq_some hcut
      exact ⟨parts.1, '#' :: parts.2, hurl, hfirst, by simp⟩
  cases hcut : cut? '?' front with
  | none => exact ⟨front, none, f, htext, cut?_eq_none.1 hcut, by simpa [marked] using hfront, hf⟩
  | some parts =>
    obtain ⟨rfl, hfirst⟩ := cut?_eq_some hcut
    exact ⟨parts.1, some parts.2, f, by simpa [marked] using htext, hfirst, hfront, hf⟩

section Divides

variable {url : String} {b f : List Char} {q : Option (List Char)} (h : Divides url b q f)
include h

/-- There is one way only to divide a URL. -/
theorem Divides.parts : base url = b ∧ query? url = q ∧ UrlText.fragment url = f := by
  have hfree : ∀ c ∈ b ++ marked q, c ≠ '#' := fun c hc he => h.noFragment (he ▸ hc)
  have hfront := takeWhile_stop (p := (· ≠ '#')) (s := b ++ marked q) (t := f)
    (by simpa using hfree) (by simpa using h.fragment)
  have htext : url.toList = b ++ marked q ++ f := by rw [h.text, List.append_assoc]
  refine ⟨?_, ?_, by rw [UrlText.fragment, htext, hfront.2]⟩
  · have hb : ∀ c ∈ b, (decide (c ≠ '?' ∧ c ≠ '#')) = true := by
      intro c hc
      have hmark : c ≠ '#' := hfree c (List.mem_append_left _ hc)
      have hquery : c ≠ '?' := fun he => h.noQuery (he ▸ hc)
      simp [hmark, hquery]
    rw [base, h.text]
    refine (takeWhile_stop hb ?_).1
    cases q with
    | none =>
      intro c hc
      have hmark : c = '#' := h.fragment c hc
      simp [hmark]
    | some q => simp [marked]
  · rw [query?, beforeFragment, htext, hfront.1]
    cases q with
    | none => simp [marked, cut?_eq_none.2 h.noQuery]
    | some q => simp [marked, cut?_append h.noQuery]

theorem Divides.fragment_eq_nil_iff : f = [] ↔ '#' ∉ url.toList := by
  rw [h.text, ← List.append_assoc, List.mem_append, not_or]
  constructor
  · rintro rfl
    exact ⟨h.noFragment, by simp⟩
  · rintro ⟨-, hf⟩
    cases f with
    | nil => rfl
    | cons c f =>
      obtain rfl : c = '#' := h.fragment c rfl
      simp at hf

theorem Divides.mem_iff (hf : f = []) : '?' ∈ url.toList ↔ q.isSome := by
  rw [h.text, hf]
  cases q <;> simp [marked, h.noQuery]

end Divides

/-! ### Text at the end -/

/-- The sign that the data is put behind. -/
def separator (url : String) : Char := if '?' ∈ url.toList then '&' else '?'

/-- A query with more data. -/
def extended : Option (List Char) → List Char → List Char
  | none, data => data
  | some query, data => query ++ '&' :: data

theorem toList_withQuery (url data : String) :
    (Walk.withQuery url data).toList = url.toList ++ separator url :: data.toList := by
  rw [Walk.withQuery, separator]
  split <;> simp

theorem Divides.withQuery {url data : String} {b : List Char} {q : Option (List Char)}
    (h : Divides url b q []) (hdata : '#' ∉ data.toList) :
    Divides (Walk.withQuery url data) b (some (extended q data.toList)) [] := by
  have hmem := h.mem_iff rfl
  have hfree := h.noFragment
  refine ⟨?_, h.noQuery, ?_, by simp⟩
  · rw [toList_withQuery, h.text, separator]
    cases q <;> simp [hmem, marked, extended]
  · cases q <;> simp_all [marked, extended]

/-- Behind a fragment, data belongs to it. -/
theorem Divides.withQuery_fragment {url : String} {b f : List Char} {q : Option (List Char)}
    (h : Divides url b q f) (hf : f ≠ []) (data : String) :
    Divides (Walk.withQuery url data) b q (f ++ separator url :: data.toList) := by
  refine ⟨?_, h.noQuery, h.noFragment, ?_⟩
  · rw [toList_withQuery, h.text]
    simp
  · rw [List.head?_append_of_ne_nil _ hf]
    exact h.fragment

end UrlText

namespace Command

open UrlText

/-- With `-G` there is no body. A URL without a fragment keeps its base and gets the data at the
end of its query, or as its query if it has none; of a URL with a fragment only the fragment
changes. -/
theorem data_in_query {limits : Limits} {tokens : List String} {os : List Occurrence}
    {c : Command} {data : String} (hcut : Cut tokens.tail os) (h : ofTokens limits tokens = .ok c)
    (hget : .switch .get ∈ os) (hdata : lastOf Occurrence.data? os = some data)
    (hplain : '#' ∉ data.toList) :
    c.request.body = none ∧ ∃ url, baseUrl? os = some url ∧ base c.request.url = base url ∧
      ('#' ∉ url.toList → fragment c.request.url = fragment url ∧
        query? c.request.url = some (extended (query? url) data.toList)) ∧
      ('#' ∈ url.toList → query? c.request.url = query? url ∧
        fragment c.request.url = fragment url ++ separator url :: data.toList) := by
  obtain ⟨url, hurl, rfl⟩ := command_of_cut hcut h
  have hquery : (Walk.after os).dataInQuery = true := by simpa [Walk.dataInQuery_after] using hget
  have hlast : (Walk.after os).data = some data := by rw [Walk.data_after, hdata]
  have hfull : (Walk.after os).fullUrl url = Walk.withQuery url data := by
    rw [Walk.fullUrl, hquery, hlast]
  refine ⟨by simp [Walk.body, hquery], url, hurl, ?_⟩
  rw [hfull]
  obtain ⟨b, q, f, hdivides⟩ := exists_divides url
  obtain ⟨hbase, hq, hf⟩ := hdivides.parts
  have hmark : f = [] ↔ '#' ∉ url.toList := hdivides.fragment_eq_nil_iff
  rw [hbase, hq, hf]
  by_cases hnil : f = []
  · subst hnil
    obtain ⟨hbase', hq', hf'⟩ := (hdivides.withQuery hplain).parts
    exact ⟨hbase', fun _ => ⟨hf', hq'⟩, fun hmem => absurd hmem (hmark.1 rfl)⟩
  · obtain ⟨hbase', hq', hf'⟩ := (hdivides.withQuery_fragment hnil data).parts
    exact ⟨hbase', fun hmem => absurd (hmark.2 hmem) hnil, fun _ => ⟨hq', hf'⟩⟩

/-- An empty query is a query; a `?` in the fragment is none. -/
theorem data_in_query_empty :
    let tokens := ["curl", "-G", "-d", "q=1", "http://h.test/a?"]
    let os : List Occurrence := [.switch .get, .valued .data "-d" "q=1", .bare "http://h.test/a?"]
    ofTokens {} tokens = .ok ⟨⟨"GET", "http://h.test/a?&q=1", [], none⟩, []⟩ ∧
      Cut tokens.tail os ∧ .switch .get ∈ os ∧ lastOf Occurrence.data? os = some "q=1" ∧
      '#' ∉ "q=1".toList ∧ ∃ url, baseUrl? os = some url ∧
        query? "http://h.test/a?&q=1" = some (extended (query? url) "q=1".toList) := by
  intro tokens os
  have hcut : Cut tokens.tail os := cut_iff.2 (by decide +kernel)
  have hc : ofTokens {} tokens = .ok ⟨⟨"GET", "http://h.test/a?&q=1", [], none⟩, []⟩ := by rfl
  obtain ⟨-, url, hurl, -, hplain, -⟩ := data_in_query hcut hc (by decide) rfl (by decide)
  have hbase : baseUrl? os = some "http://h.test/a?" := rfl
  obtain rfl : url = "http://h.test/a?" := Option.some.inj (hurl.symm.trans hbase)
  exact ⟨hc, hcut, by decide, rfl, by decide, _, hurl, (hplain (by decide)).2⟩

/-- The data of this command is in the fragment and not in the query. -/
theorem data_in_fragment :
    ∃ c, ofTokens {} ["curl", "-G", "-d", "q=1", "http://h.test/a#top"] = .ok c ∧
      c.request.url = "http://h.test/a#top?q=1" ∧ query? c.request.url = none ∧
      fragment c.request.url ≠ fragment "http://h.test/a#top" :=
  ⟨⟨⟨"GET", "http://h.test/a#top?q=1", [], none⟩, []⟩, rfl, rfl, by decide, by decide⟩

end Command

end CurlCode
