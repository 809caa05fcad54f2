import CurlCode.Proofs.Command.Meaning
import CurlCode.Proofs.Repetition

/-!
The headers of a walk and the insertions that they come from. Each name stands where it
was first inserted, with the value that was inserted last (`Headers.Records`), at every
point of a walk (`headers_recorded`).
-/
namespace CurlCode

open Text

/-- The insertions of a whole walk, in order. -/
def insertions (os : List Occurrence) : List Header :=
  os.foldl (fun log o => log ++ o.insertions log) []

theorem insertions_concat (os : List Occurrence) (o : Occurrence) :
    insertions (os ++ [o]) = insertions os ++ o.insertions (insertions os) := List.foldl_append

namespace Headers

/-- The headers after these insertions. -/
structure Records (log : List Header) (hs : Headers) : Prop where
  nodup : hs.names.Nodup
  /-- In the order of the first insertions. -/
  names : hs.names = (names log).eraseDups
  /-- With the value of the last insertion under exactly that name. -/
  last : ∀ h ∈ hs, (log.filter fun a => a.name = h.name).getLast? = some h

theorem mem_put {hs : Headers} (hnodup : hs.names.Nodup) {h : Header} {n v : String}
    (hput : h ∈ hs.put n v) : h = ⟨n, v⟩ ∨ (h ∈ hs ∧ h.name ≠ n) := by
  induction hs with
  | nil => exact .inl (List.mem_singleton.1 hput)
  | cons a hs ih =>
    simp only [names, List.map_cons, List.nodup_cons] at hnodup
    obtain ⟨hnew, htail⟩ := hnodup
    rw [put] at hput
    split at hput
    · next hname =>
      rcases List.mem_cons.1 hput with rfl | hmem
      · exact .inl rfl
      · refine .inr ⟨List.mem_cons_of_mem _ hmem, ?_⟩
        rintro rfl
        exact hnew (hname ▸ List.mem_map_of_mem hmem)
    · next hname =>
      rcases List.mem_cons.1 hput with rfl | hput
      · exact .inr ⟨List.mem_cons_self, hname⟩
      · rcases ih htail hput with rfl | ⟨hmem, hother⟩
        · exact .inl rfl
        · exact .inr ⟨List.mem_cons_of_mem _ hmem, hother⟩

theorem Records.put {log : List Header} {hs : Headers} (hr : Records log hs) (h : Header) :
    Records (log ++ [h]) (hs.put h.name h.value) where
  nodup := nodup_names_put h.name h.value hr.nodup
  names := by
    have hmem : h.name ∈ hs.names ↔ h.name ∈ Headers.names log := by
      rw [hr.names, List.mem_eraseDups]
    have hlog : Headers.names (log ++ [h]) = Headers.names log ++ [h.name] := List.map_append
    rw [names_put, hlog, eraseDups_concat, ← hr.names]
    simp only [hmem]
  last := by
    intro a ha
    rw [List.filter_append]
    rcases mem_put hr.nodup ha with rfl | ⟨ha, hname⟩
    · simp
    · have hother : ¬ h.name = a.name := fun he => hname he.symm
      simpa [hother] using hr.last a ha

theorem records_putAll (log : List Header) : Records log (putAll [] log) := by
  induction log using List.reverseRecOn with
  | nil => exact ⟨List.nodup_nil, rfl, by simp⟩
  | append_singleton log h ih =>
    rw [putAll_append]
    exact ih.put h

end Headers

namespace Walk

theorem headers_after (os : List Occurrence) :
    (after os).headers = Headers.putAll [] (insertions os) := by
  induction os using List.reverseRecOn with
  | nil => rfl
  | append_singleton os o ih =>
    -- a name that has been inserted is there from then on
    have hsame (n : String) : n ∈ Headers.names (Headers.putAll [] (insertions os)) ↔
        n ∈ Headers.names (insertions os) := by
      rw [Headers.mem_names_putAll]
      simp [Headers.names]
    rw [after_concat, next, ih, insertions_concat, Headers.putAll_append,
      Occurrence.insertions_congr hsame]

theorem records_after (os : List Occurrence) :
    (after os).headers.Records (insertions os) := by
  rw [headers_after]
  exact Headers.records_putAll (insertions os)

/-- A run that does not fail keeps to the limit and records its insertions. -/
theorem records_of_foldlM {limit : Nat} {os : List Occurrence} {w : Walk}
    (h : os.foldlM (read limit) .start = .ok w) :
    w.headers.length ≤ limit ∧ w.headers.Records (insertions os) := by
  rw [foldlM_read_start, within] at h
  split at h
  · next hroom =>
    obtain rfl : after os = w := by simpa using h
    exact ⟨hroom, records_after os⟩
  · simp at h

end Walk

namespace Command

/-- After any number of occurrences, and in the command that is read, no name stands twice,
there are no more names than are admitted, and the headers record what was inserted. -/
theorem headers_recorded (limits : Limits) (tokens : List String) :
    (∀ (n : Nat) (w : Walk),
      ((Occurrence.ofTokens tokens.tail).take n).foldlM (Walk.read limits.headers) .start = .ok w →
        w.headers.length ≤ limits.headers ∧
        w.headers.Records (insertions ((Occurrence.ofTokens tokens.tail).take n))) ∧
    ∀ c, ofTokens limits tokens = .ok c →
      c.request.headers.length ≤ limits.headers ∧
      c.request.headers.Records (insertions (Occurrence.ofTokens tokens.tail)) := by
  constructor
  · intro n w h
    exact Walk.records_of_foldlM h
  · intro c h
    obtain ⟨hroom, hc⟩ := ofTokens_eq_ok h
    rw [ofOccurrences?, Option.map_eq_some_iff] at hc
    obtain ⟨url, -, rfl⟩ := hc
    exact ⟨hroom, Walk.records_after _⟩

example : insertions (Occurrence.ofTokens ["-H", "accept : a ", "--json", "x", "-HAccept:b",
    "-H", "none", "-A", "me", "--json", "y"]) =
    [⟨"accept", "a"⟩, ⟨"Content-Type", "application/json"⟩, ⟨"Accept", "b"⟩,
      ⟨"User-Agent", "me"⟩] := by decide +kernel

end Command

end CurlCode
