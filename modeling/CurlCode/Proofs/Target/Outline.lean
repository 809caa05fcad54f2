import CurlCode.Proofs.Target.Language

/-!
The outline of a program depends on the shape of its request alone, for each language.
-/
namespace CurlCode

open Source

theorem flatMap_const (as : List α) (bs : List β) :
    as.flatMap (fun _ => bs) = (List.replicate as.length bs).flatten := by
  induction as with
  | nil => rfl
  | cons a as ih => simp [ih, List.replicate_succ]

/-- Parts with one outline make lists with one outline. -/
theorem outline_forEach_eq {as bs : List α} (h : as.length = bs.length) {part : α → Source}
    (hpart : ∀ a b, outline (part a) = outline (part b)) :
    outline (.forEach as part) = outline (.forEach bs part) := by
  induction as generalizing bs with
  | nil =>
    obtain rfl : bs = [] := List.eq_nil_of_length_eq_zero h.symm
    rfl
  | cons a as ih =>
    cases bs with
    | nil => simp at h
    | cons b bs =>
      rw [forEach_cons, forEach_cons, outline_append, outline_append, hpart a b,
        ih (Nat.succ.inj h)]

/-- So do lists that are left out when they are empty. -/
theorem outline_optional {as bs : List α} (h : as.length = bs.length) {before after : Source}
    {part : α → Source} (hpart : ∀ a b, outline (part a) = outline (part b)) :
    outline (if as.isEmpty then [] else .concat [before, .forEach as part, after]) =
      outline (if bs.isEmpty then [] else .concat [before, .forEach bs part, after]) := by
  have hempty : as.isEmpty = bs.isEmpty := by
    cases as <;> cases bs <;> simp_all
  rw [hempty]
  split
  · rfl
  · simp only [concat_cons, outline_append, outline_forEach_eq h hpart]

variable {r r' : Request}

namespace Python

theorem outline_headers (h : SameShape .python r r') :
    outline (headers r) = outline (headers r') := by
  rw [headers, headers]
  exact outline_optional h.headers fun _ _ => rfl

theorem outline_body (h : SameShape .python r r') : outline (body r) = outline (body r') := by
  have hrepeats := h.repeats rfl
  rcases h.body.payloads with
    ⟨hp, hp'⟩ | ⟨v, w, hp, hp', hv⟩ | ⟨fs, gs, hp, hp', hf⟩ | ⟨s, t, hp, hp'⟩
  · simp [body, hp, hp']
  · simp [body, hp, hp', Json.outline_eq_of_blank_eq hv]
  · have hnodup : (fs.map Field.name).Nodup ↔ (gs.map Field.name).Nodup := by
      simpa [hp, hp', Payload.Repeats, Decidable.not_iff_not] using hrepeats
    have hform : outline (form fs) = outline (form gs) := by
      simp only [form, hnodup]
      split <;> simp [flatMap_const, hf]
    simp [body, hp, hp', hform]
  · simp [body, hp, hp']

theorem outline_call (h : SameShape .python r r') : outline (call r) = outline (call r') := by
  have hargs : outline (arguments r) = outline (arguments r') := by
    simp only [arguments, h.isEmpty_headers]
    rcases h.body.payloads with
      ⟨hp, hp'⟩ | ⟨v, w, hp, hp', -⟩ | ⟨fs, gs, hp, hp', -⟩ | ⟨s, t, hp, hp'⟩ <;> rw [hp, hp']
  simp only [call, h.method]
  split <;> simp [hargs]

theorem outline_source (h : SameShape .python r r') :
    outline (source r) = outline (source r') := by
  simp [source, outline_headers h, outline_body h, outline_call h]

end Python

/-! Where the method is a string, it leaves the outline alone. -/

theorem JavaScript.outline_source (h : SameShape .javaScript r r') :
    outline (source r) = outline (source r') := by
  have hheaders : outline (headers r) = outline (headers r') := by
    rw [headers, headers]
    exact outline_optional h.headers fun _ _ => rfl
  have hbody : outline (body r) = outline (body r') := by
    rcases h.body.payloads with
      ⟨hp, hp'⟩ | ⟨v, w, hp, hp', hv⟩ | ⟨fs, gs, hp, hp', hf⟩ | ⟨s, t, hp, hp'⟩
    · simp [body, hp, hp']
    · simp [body, hp, hp', Json.outline_eq_of_blank_eq hv]
    · simp [body, hp, hp', flatMap_const, hf]
    · simp [body, hp, hp']
  simp [source, hheaders, hbody]

theorem Axios.outline_source (h : SameShape .axios r r') :
    outline (source r) = outline (source r') := by
  have hheaders : outline (headers r) = outline (headers r') := by
    rw [headers, headers]
    exact outline_optional h.headers fun _ _ => rfl
  have hbody : outline (body r) = outline (body r') := by
    rcases h.body.payloads with
      ⟨hp, hp'⟩ | ⟨v, w, hp, hp', hv⟩ | ⟨fs, gs, hp, hp', hf⟩ | ⟨s, t, hp, hp'⟩
    · simp [body, hp, hp']
    · simp [body, hp, hp', Json.outline_eq_of_blank_eq hv]
    · simp [body, hp, hp', flatMap_const, hf]
    · simp [body, hp, hp']
  simp [source, hheaders, hbody]

theorem Go.outline_source (h : SameShape .go r r') :
    outline (source r) = outline (source r') := by
  rcases h.body.payloads with
    ⟨hp, hp'⟩ | ⟨v, w, hp, hp', hv⟩ | ⟨fs, gs, hp, hp', -⟩ | ⟨s, t, hp, hp'⟩
  · simp [source, packages, setup, reader, checkError, hp, hp', flatMap_const, h.headers]
  · simp [source, packages, setup, reader, checkError, hp, hp', flatMap_const, h.headers,
      Json.outline_eq_of_blank_eq hv]
  · simp [source, packages, setup, reader, checkError, hp, hp', flatMap_const, h.headers]
  · simp [source, packages, setup, reader, checkError, hp, hp', flatMap_const, h.headers]

theorem Rust.outline_source (h : SameShape .rust r r') :
    outline (source r) = outline (source r') := by
  have hmethod : outline (method r) = outline (method r') := by
    simp only [method, h.method]
    split <;> simp
  have hbody : outline (body r) = outline (body r') := by
    rcases h.body.payloads with
      ⟨hp, hp'⟩ | ⟨v, w, hp, hp', hv⟩ | ⟨fs, gs, hp, hp', -⟩ | ⟨s, t, hp, hp'⟩
    · simp [body, hp, hp']
    · simp [body, hp, hp', Json.outline_eq_of_blank_eq hv]
    · simp [body, hp, hp']
    · simp [body, hp, hp']
  simp [source, hmethod, hbody, flatMap_const, h.headers]

theorem Php.outline_source (h : SameShape .php r r') :
    outline (source r) = outline (source r') := by
  have hheaders : outline (headers r) = outline (headers r') := by
    rw [headers, headers]
    exact outline_optional h.headers fun _ _ => rfl
  have hbody : outline (body r) = outline (body r') := by
    rcases h.body.payloads with
      ⟨hp, hp'⟩ | ⟨v, w, hp, hp', hv⟩ | ⟨fs, gs, hp, hp', -⟩ | ⟨s, t, hp, hp'⟩
    · simp [body, hp, hp']
    · simp [body, hp, hp', Json.outline_eq_of_blank_eq hv]
    · simp [body, hp, hp']
    · simp [body, hp, hp']
  simp [source, hheaders, hbody]

theorem Ruby.outline_source (h : SameShape .ruby r r') :
    outline (source r) = outline (source r') := by
  have hmethod : outline (construction r) = outline (construction r') := by
    simp only [construction, h.method, h.isSome_body]
    split <;> simp
  rcases h.body.payloads with
    ⟨hp, hp'⟩ | ⟨v, w, hp, hp', hv⟩ | ⟨fs, gs, hp, hp', hf⟩ | ⟨s, t, hp, hp'⟩
  · simp [source, imports, body, hmethod, hp, hp', flatMap_const, h.headers]
  · simp [source, imports, body, hmethod, hp, hp', flatMap_const, h.headers,
      Json.outline_eq_of_blank_eq hv]
  · simp [source, imports, body, hmethod, hp, hp', flatMap_const, h.headers, hf]
  · simp [source, imports, body, hmethod, hp, hp', flatMap_const, h.headers]

theorem Swift.outline_source (h : SameShape .swift r r') :
    outline (source r) = outline (source r') := by
  have hbody : outline (body r) = outline (body r') := by
    rcases h.body.payloads with
      ⟨hp, hp'⟩ | ⟨v, w, hp, hp', hv⟩ | ⟨fs, gs, hp, hp', -⟩ | ⟨s, t, hp, hp'⟩
    · simp [body, hp, hp']
    · have hcontainer : v.isContainer = w.isContainer := by
        rw [← Json.isContainer_blank, hv, Json.isContainer_blank]
      have harray : v.isArray = w.isArray := by
        rw [← Json.isArray_blank, hv, Json.isArray_blank]
      simp only [body, hp, hp', hcontainer, harray]
      split
      · cases w.isArray <;> simp [Json.outline_eq_of_blank_eq hv]
      · rfl
    · simp [body, hp, hp', textBody]
    · simp [body, hp, hp', textBody]
  simp [source, hbody, flatMap_const, h.headers]

theorem Java.outline_source (h : SameShape .java r r') :
    outline (source r) = outline (source r') := by
  have hbody := h.isSome_body
  have hmethod : outline (method r) = outline (method r') := by
    simp only [method, h.method]
    cases hr : r.body <;> cases hr' : r'.body
    · cases r'.standardMethod? with
      | none => rfl
      | some m => cases m <;> rfl
    · simp [hr, hr'] at hbody
    · simp [hr, hr'] at hbody
    · rfl
  simp [source, hmethod, flatMap_const, h.headers]

namespace CSharp

theorem outline_forEach_header (hbody : r.body.isSome = r'.body.isSome) {hs hs' : Headers}
    (h : hs.map (isContentHeader ·.name) = hs'.map (isContentHeader ·.name)) :
    outline (.forEach hs (header r)) = outline (.forEach hs' (header r')) := by
  induction hs generalizing hs' with
  | nil =>
    obtain rfl : hs' = [] := by simpa using h.symm
    rfl
  | cons a hs ih =>
    cases hs' with
    | nil => simp at h
    | cons b hs' =>
      simp only [List.map_cons, List.cons.injEq] at h
      have hone : outline (header r a) = outline (header r' b) := by
        simp only [header, hbody, h.1]
        split <;> rfl
      rw [forEach_cons, forEach_cons, outline_append, outline_append, hone, ih h.2]

theorem outline_source (h : SameShape .cSharp r r') :
    outline (source r) = outline (source r') := by
  have hbody := h.isSome_body
  have hmethod : outline (method r) = outline (method r') := by
    simp only [method, h.method]
    split <;> simp
  have hcontent : outline (body r) = outline (body r') := by
    cases hr : r.body <;> cases hr' : r'.body <;> simp_all [body]
  simp only [source, concat_cons, concat_nil, outline_append, hmethod, hcontent, hbody,
    outline_forEach_header hbody (h.contentHeaders rfl)]
  simp

end CSharp

theorem Language.outline_source {l : Language} (h : SameShape l r r') :
    outline (l.source r) = outline (l.source r') := by
  cases l with
  | python => exact Python.outline_source h
  | javaScript => exact JavaScript.outline_source h
  | axios => exact Axios.outline_source h
  | go => exact Go.outline_source h
  | rust => exact Rust.outline_source h
  | php => exact Php.outline_source h
  | ruby => exact Ruby.outline_source h
  | java => exact Java.outline_source h
  | cSharp => exact CSharp.outline_source h
  | swift => exact Swift.outline_source h

end CurlCode
