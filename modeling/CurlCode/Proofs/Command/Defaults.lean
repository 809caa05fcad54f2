import CurlCode.Proofs.Command.Meaning

/-!
The headers that come with JSON data, beside headers that are given. Such a default is left
out if its name is there in any letter case, while a header that is given replaces only a
header of exactly its name. So a given header stands alone, unless it comes after the default
in another letter case (`explicit_and_default`).
-/
namespace CurlCode

open Text

namespace Headers

/-- What is there under a name, or else the default. -/
def orDefault (key : String) (hs : Headers) : Headers :=
  if hs = [] then [⟨key, "application/json"⟩] else hs

theorem orDefault_of_ne_nil (key : String) {hs : Headers} (h : hs ≠ []) :
    orDefault key hs = hs := if_neg h

theorem missing_eq (key : String) (present : Headers) :
    Occurrence.missing present key =
      if named key present = [] then [⟨key, "application/json"⟩] else [] := by
  have hany : (present.any fun h => sameLetters h.name key) = !decide (named key present = []) := by
    rw [Bool.eq_iff_iff]
    simp [named, List.filter_eq_nil_iff]
  rw [Occurrence.missing, hany]
  by_cases hnone : named key present = [] <;> simp [hnone]

theorem named_missing {key : String} {hs present : Headers}
    (h : named key present = named key hs) :
    named key (hs.putAll (Occurrence.missing present key)) = orDefault key (named key hs) := by
  rw [missing_eq, h, orDefault]
  by_cases hnone : named key hs = []
  · simp [hnone, named_put, put]
  · simp [hnone]

/-- A default says nothing about other names. -/
theorem named_missing_other {key name : String} (h : sameLetters name key = false)
    (hs present : Headers) :
    named key (hs.putAll (Occurrence.missing present name)) = named key hs := by
  rw [Occurrence.missing]
  split
  · rfl
  · rw [putAll_cons, putAll_nil, named_put, h]
    rfl

/-- The first `Content-Type` tells the media types. -/
theorem facets_of_named {h : Header} {hs rest : Headers}
    (hnamed : named "Content-Type" hs = h :: rest) :
    Facets.ofHeaders hs = Facets.ofContentType h.value := by
  have hcase (n : String) : sameLetters n "content-type" = sameLetters n "Content-Type" :=
    Bool.eq_iff_iff.2
      ⟨fun hn => sameLetters_trans hn (by decide), fun hn => sameLetters_trans hn (by decide)⟩
  have hfirst : hs.find? (fun h => sameLetters h.name "Content-Type") = some h := by
    rw [← List.head?_filter]
    exact congrArg List.head? hnamed
  simp only [Facets.ofHeaders, lookup?, hcase, hfirst, Option.map_some]

end Headers

namespace Occurrence

/-- The header that a header line gives. -/
def given? : Occurrence → Option Header
  | .valued .header _ line => Walk.headerOfLine? line
  | _ => none

/-- Data with defaults. -/
def isJson : Occurrence → Bool
  | .valued .json _ _ => true
  | _ => false

/-- The names that JSON data gives a default to. -/
def defaults : List String := ["Content-Type", "Accept"]

theorem mem_defaults {key : String} : key ∈ defaults ↔ key = "Content-Type" ∨ key = "Accept" := by
  simp [defaults]

/-- What stands under a default name after this occurrence, given what stood there. -/
def under (key : String) (hs : Headers) (o : Occurrence) : Headers :=
  match o.given? with
  | some h => if sameLetters h.name key then hs.put h.name h.value else hs
  | none => if o.isJson then hs.orDefault key else hs

/-- It gives no header of this name. -/
def Silent (key : String) (o : Occurrence) : Prop :=
  ∀ h, o.given? = some h → sameLetters h.name key = false

theorem under_of_silent {key : String} {o : Occurrence} (h : o.Silent key) (hs : Headers) :
    o.under key hs = if o.isJson then hs.orDefault key else hs := by
  rw [under]
  cases hgiven : o.given? with
  | none => rfl
  | some a =>
    have hjson : o.isJson = false := by
      cases o with
      | valued flag token value => cases flag <;> simp_all [given?, isJson]
      | _ => rfl
    simp [h a hgiven, hjson]

theorem insertions_header (present : List Header) (token line : String) :
    (Occurrence.valued .header token line).insertions present =
      (Walk.headerOfLine? line).toList := by
  rw [insertions, Walk.headerOfLine?]
  cases cut? ':' line.toList <;> simp [trim]

end Occurrence

namespace Walk

open Occurrence

/-- A step, seen under a default name. -/
theorem named_next {key : String} (hkey : key ∈ defaults) (w : Walk) (o : Occurrence) :
    (w.next o).headers.named key = o.under key (w.headers.named key) := by
  rw [next]
  cases o with
  | valued flag token value =>
    cases flag with
    | header =>
      rw [insertions_header, under, given?]
      cases headerOfLine? value with
      | none => rfl
      | some h => exact Headers.named_put key h.name h.value w.headers
    | json =>
      rw [insertions, Headers.putAll_append, under_of_silent (by simp [Silent, given?])]
      simp only [isJson, if_true]
      obtain rfl | rfl := mem_defaults.1 hkey
      · rw [Headers.named_missing_other (by decide), Headers.named_missing rfl]
      -- the other default is put first, and it makes no difference to this one
      · have hfirst : Headers.named "Accept"
            (w.headers.putAll (missing w.headers "Content-Type")) =
            Headers.named "Accept" w.headers := Headers.named_missing_other (by decide) _ _
        have hpresent : Headers.named "Accept" (w.headers ++ missing w.headers "Content-Type") =
            Headers.named "Accept" w.headers := by
          rw [Headers.named_append, missing]
          split
          · simp [Headers.named]
          · simp [Headers.named, show sameLetters "Content-Type" "Accept" = false by decide]
        rw [Headers.named_missing (hpresent.trans hfirst.symm), hfirst]
    | userAgent | referer =>
      rw [insertions, Headers.putAll_cons, Headers.putAll_nil, Headers.named_put]
      obtain rfl | rfl := mem_defaults.1 hkey <;> exact if_neg (by dsimp only; decide)
    | _ => rfl
  | _ => rfl

/-- A run, seen under a default name. -/
theorem named_foldl {key : String} (hkey : key ∈ defaults) (os : List Occurrence) (w : Walk) :
    (os.foldl next w).headers.named key = os.foldl (under key) (w.headers.named key) := by
  induction os generalizing w with
  | nil => rfl
  | cons o os ih => rw [List.foldl_cons, List.foldl_cons, ih, named_next hkey]

end Walk

namespace Occurrence

/-- Once something stands there, only a given header changes it. -/
theorem foldl_under_of_ne_nil {key : String} {os : List Occurrence} (h : ∀ o ∈ os, o.Silent key)
    {hs : Headers} (hne : hs ≠ []) : os.foldl (under key) hs = hs := by
  induction os with
  | nil => rfl
  | cons o os ih =>
    obtain ⟨ho, hos⟩ := List.forall_mem_cons.1 h
    rw [List.foldl_cons, under_of_silent ho, Headers.orDefault_of_ne_nil key hne, ite_self]
    exact ih hos

theorem foldl_under_nil {key : String} {os : List Occurrence} (h : ∀ o ∈ os, o.Silent key) :
    os.foldl (under key) [] = if os.any isJson then [⟨key, "application/json"⟩] else [] := by
  induction os with
  | nil => rfl
  | cons o os ih =>
    obtain ⟨ho, hos⟩ := List.forall_mem_cons.1 h
    rw [List.foldl_cons, under_of_silent ho, List.any_cons]
    cases hjson : o.isJson with
    | false => simpa using ih hos
    | true =>
      simpa [Headers.orDefault] using
        foldl_under_of_ne_nil hos (List.cons_ne_nil ⟨key, "application/json"⟩ [])

/-- What stands under a default name after a run with one given header of that name. -/
theorem foldl_under_given {key : String} {before after : List Occurrence} {o : Occurrence}
    {h : Header} (hbefore : ∀ o ∈ before, o.Silent key) (hafter : ∀ o ∈ after, o.Silent key)
    (hgiven : o.given? = some h) (hname : sameLetters h.name key) :
    (before ++ o :: after).foldl (under key) [] =
      if before.any isJson ∧ h.name ≠ key then [⟨key, "application/json"⟩, h] else [h] := by
  have hput (hs : Headers) : o.under key hs = hs.put h.name h.value := by
    simp [under, hgiven, hname]
  have hne (hs : Headers) : hs.put h.name h.value ≠ [] := by
    cases hs with
    | nil => simp [Headers.put]
    | cons a hs => rw [Headers.put]; split <;> simp
  rw [List.foldl_append, List.foldl_cons, foldl_under_nil hbefore, hput,
    foldl_under_of_ne_nil hafter (hne _)]
  cases before.any isJson with
  | false => simp [Headers.put]
  | true =>
    by_cases hexact : h.name = key
    · subst hexact
      simp [Headers.put]
    · simp [Headers.put, hexact, Ne.symm hexact]

end Occurrence

namespace Command

open Occurrence

/-- One header line gives a `Content-Type` or `Accept`. It stands alone if no default comes
before it, or if it has the default's very name; a name in another letter case comes to stand
behind the default. -/
theorem explicit_and_default {limits : Limits} {tokens : List String} {c : Command}
    {key : String} {before after : List Occurrence} {o : Occurrence} {h : Header}
    (hc : ofTokens limits tokens = .ok c) (hcut : Cut tokens.tail (before ++ o :: after))
    (hkey : key ∈ defaults) (hgiven : o.given? = some h) (hname : sameLetters h.name key)
    (hothers : ∀ o ∈ before ++ after, o.Silent key) :
    (h.name = key ∨ (∀ o ∈ before, o.isJson = false) →
      c.request.headers.named key = [h] ∧
      (key = "Content-Type" → c.request.facets = .ofContentType h.value)) ∧
    (h.name ≠ key → (∃ o ∈ before, o.isJson) →
      c.request.headers.named key = [⟨key, "application/json"⟩, h] ∧
      (key = "Content-Type" → c.request.facets = .ofContentType "application/json")) := by
  obtain ⟨hbefore, hafter⟩ := List.forall_mem_append.1 hothers
  obtain ⟨url, -, rfl⟩ := command_of_cut hcut hc
  have hnamed : (Walk.after (before ++ o :: after)).headers.named key =
      if before.any isJson ∧ h.name ≠ key then [⟨key, "application/json"⟩, h] else [h] :=
    (Walk.named_foldl hkey _ .start).trans (foldl_under_given hbefore hafter hgiven hname)
  constructor
  · intro halone
    have hno : ¬ (before.any isJson ∧ h.name ≠ key) := by
      rintro ⟨hjson, hother⟩
      obtain ⟨o, hmem, hjson⟩ := List.any_eq_true.1 hjson
      have hfree := halone.resolve_left hother o hmem
      simp [hfree] at hjson
    rw [if_neg hno] at hnamed
    refine ⟨hnamed, ?_⟩
    rintro rfl
    exact Headers.facets_of_named hnamed
  · intro hother hjson
    rw [if_pos ⟨List.any_eq_true.2 hjson, hother⟩] at hnamed
    refine ⟨hnamed, ?_⟩
    rintro rfl
    have hfacets := Headers.facets_of_named hnamed
    exact hfacets

/-- Two pieces of data, and between them a name in capitals. -/
theorem explicit_and_default_between :
    let line := "CONTENT-TYPE: text/plain"
    let tokens := ["curl", "--json", "1", "-H", line, "--json", "2", "x.test"]
    let before : List Occurrence := [.valued .json "--json" "1"]
    let o : Occurrence := .valued .header "-H" line
    let after : List Occurrence := [.valued .json "--json" "2", .bare "x.test"]
    let h : Header := ⟨"CONTENT-TYPE", "text/plain"⟩
    let headers : Headers := [⟨"Content-Type", "application/json"⟩,
      ⟨"Accept", "application/json"⟩, h]
    Cut tokens.tail (before ++ o :: after) ∧ o.given? = some h ∧
      sameLetters h.name "Content-Type" ∧ (∀ o ∈ before ++ after, o.Silent "Content-Type") ∧
      ofTokens {} tokens = .ok ⟨⟨"POST", "x.test", headers, some "2"⟩, []⟩ ∧
      headers.named "Content-Type" = [⟨"Content-Type", "application/json"⟩, h] := by
  intro line tokens before o after h headers
  have hcut : Cut tokens.tail (before ++ o :: after) := cut_iff.2 (by decide +kernel)
  have hc : ofTokens {} tokens = .ok ⟨⟨"POST", "x.test", headers, some "2"⟩, []⟩ := by
    decide +kernel
  have hgiven : o.given? = some h := by decide +kernel
  have hname : sameLetters h.name "Content-Type" := by decide
  have hothers : ∀ o ∈ before ++ after, o.Silent "Content-Type" := by
    simp [before, after, Silent, given?]
  obtain ⟨-, hbeside⟩ := explicit_and_default hc hcut (by decide) hgiven hname hothers
  exact ⟨hcut, hgiven, hname, hothers, hc, (hbeside (by decide) (by decide)).1⟩

/-- One header line gives the only other `Content-Type` here, and it comes second, so that the
data still counts as JSON. -/
theorem explicit_beside_default :
    let line := "content-type: text/plain"
    let tokens := ["curl", "--json", "1", "-H", line, "x.test"]
    let h : Header := ⟨"content-type", "text/plain"⟩
    let c : Command := ⟨⟨"POST", "x.test", [⟨"Content-Type", "application/json"⟩,
      ⟨"Accept", "application/json"⟩, h], some "1"⟩, []⟩
    Cut tokens.tail [.valued .json "--json" "1", .valued .header "-H" line, .bare "x.test"] ∧
      ofTokens {} tokens = .ok c ∧
      c.request.headers.named "Content-Type" = [⟨"Content-Type", "application/json"⟩, h] ∧
      c.request.facets ≠ .ofContentType h.value := by
  intro line tokens h c
  refine ⟨cut_iff.2 ?_, ?_, ?_, ?_⟩ <;> decide +kernel

end Command

end CurlCode
