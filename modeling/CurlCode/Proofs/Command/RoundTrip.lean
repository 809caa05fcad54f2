import CurlCode.Command
import CurlCode.Proofs.Command.Cut
import CurlCode.Proofs.Shell.Writing

/-!
A request written as a command line, and read back from it. Every argument stands
between single quotes, so no character of the request means anything to the scanner,
and every option takes the argument after it, whatever that looks like.
-/
namespace CurlCode

open Text Shell

/-! ### Quoted arguments -/

/-- An apostrophe has to leave the quotes. -/
def quotedChar (c : Char) : List Char :=
  if c = '\'' then ['\'', '\\', '\'', '\''] else [c]

def quoted (token : String) : List Char := ['\''] ++ token.toList.flatMap quotedChar ++ ['\'']

theorem writesIn_quotedChar (c : Char) : WritesIn .single (quotedChar c) [c] := by
  intro s rest hs _ _
  by_cases hc : c = '\''
  · subst hc
    have he : (s.append ['\'']).enter .single = s.append ['\''] := Scanner.enter_of_mode hs
    have hscan : scan s ['\'', '\\', '\'', '\''] = (s.append ['\'']).enter .single := by
      simp [Scanner.step, hs, Scanner.readBare, Scanner.push_eq_append,
        Scanner.openWord_eq_append]
    rw [quotedChar, if_pos rfl, scan_append, hscan, he]
  · rw [quotedChar, if_neg hc]
    exact SingleChar.writes ⟨c, hc⟩ s rest hs ‹_› ‹_›

theorem writes_quoted (token : String) : Writes (quoted token) token.toList := by
  have h := WritesIn.flatMap writesIn_quotedChar token.toList
  rw [List.map_id'] at h
  refine h.quoted ?_ ?_
  · intro s hs
    simp [Scanner.step, Scanner.readBare, hs, Scanner.openWord_eq_append]
  · intro s hs
    simp [Scanner.step, hs]

/-- The arguments in quotes, with one space between neighbours. -/
def commandLine (tokens : List String) : String := String.ofList (joinWith ' ' (tokens.map quoted))

theorem joinWith_quoted (token : String) (tokens : List String) :
    joinWith ' ' ((token :: tokens).map quoted) =
      quoted token ++ (tokens.map (Spaced.mk (.blank ' ' (by decide)) [])).flatMap
        (Spaced.write quoted) := by
  induction tokens generalizing token with
  | nil => simp [joinWith]
  | cons next tokens ih =>
    have hnext := ih next
    rw [List.map_cons] at hnext
    rw [List.map_cons, List.map_cons, joinWith, hnext]
    simp [Spaced.write, Gap.write]

theorem words_commandLine (tokens : List String) : words (commandLine tokens) = tokens := by
  cases tokens with
  | nil => rfl
  | cons token tokens =>
    have hfirst : Scanner.start.append token.toList = ⟨.bare, some token, #[]⟩ := by
      simp [Scanner.start, Scanner.append]
    have hrest := finish_scan_words writes_quoted
      (tokens.map (Spaced.mk (.blank ' ' (by decide)) [])) [] token #[]
    rw [List.flatMap_nil, List.append_nil] at hrest
    rw [words, commandLine, String.toList_ofList, joinWith_quoted, writes_quoted token _ _ rfl,
      hfirst, hrest]
    simp [Function.comp_def]

/-! ### The options of a request -/

/-- The line of a header option. -/
def headerLine (h : Header) : String := h.name ++ ": " ++ h.value

/-- A request, option by option. -/
def arguments (method url : String) (headers : Headers) (body : Option String) : List String :=
  "-X" :: method :: headers.flatMap (fun h => ["-H", headerLine h])
    ++ body.toList.flatMap (fun b => ["--data-raw", b]) ++ ["--url", url]

theorem ofTokens_headers (headers : Headers) (rest : List String) :
    Occurrence.ofTokens (headers.flatMap (fun h => ["-H", headerLine h]) ++ rest) =
      headers.map (fun h => .valued .header "-H" (headerLine h)) ++ Occurrence.ofTokens rest := by
  induction headers with
  | nil => rfl
  | cons h headers ih =>
    have hkind : TokenKind.ofToken "-H" = .awaiting .header := by decide
    simp only [List.flatMap_cons, List.map_cons, List.cons_append, List.nil_append]
    rw [ofTokens_awaiting hkind, ih]

theorem ofTokens_arguments (method url : String) (headers : Headers) (body : Option String) :
    Occurrence.ofTokens (arguments method url headers body) =
      .valued .method "-X" method :: headers.map (fun h => .valued .header "-H" (headerLine h))
        ++ body.toList.map (fun b => .valued .data "--data-raw" b)
        ++ [.valued .url "--url" url] := by
  have hmethod : TokenKind.ofToken "-X" = .awaiting .method := by decide
  have hdata : TokenKind.ofToken "--data-raw" = .awaiting .data := by decide
  have hurl : TokenKind.ofToken "--url" = .awaiting .url := by decide
  have hlast : Occurrence.ofTokens ["--url", url] = [.valued .url "--url" url] := by
    rw [ofTokens_awaiting hurl, Occurrence.ofTokens]
  simp only [arguments, List.cons_append, List.append_assoc]
  rw [ofTokens_awaiting hmethod, ofTokens_headers]
  cases body with
  | none => simp [hlast]
  | some b => simp [ofTokens_awaiting hdata, hlast]

/-! ### The walk over them -/

theorem Headers.put_of_not_mem {name : String} {hs : Headers} (h : name ∉ names hs)
    (value : String) : put name value hs = hs ++ [⟨name, value⟩] := by
  induction hs with
  | nil => rfl
  | cons a hs ih =>
    simp only [names, List.map_cons, List.mem_cons, not_or] at h
    simp [put, Ne.symm h.1, ih h.2]

/-- What a header option can carry: the line is cut at its first colon, and both parts are
trimmed. -/
structure Header.Plain (h : Header) : Prop where
  name : ':' ∉ h.name.toList
  trimmedName : trim h.name = h.name
  trimmedValue : trim h.value = h.value

theorem headerOfLine?_headerLine {h : Header} (hh : h.Plain) :
    Walk.headerOfLine? (headerLine h) = some h := by
  have hline : (headerLine h).toList = h.name.toList ++ ':' :: ' ' :: h.value.toList := by
    simp [headerLine]
  have hblank : trimBy isBlank (' ' :: h.value.toList) = trimBy isBlank h.value.toList := by
    simp [trimBy, show isBlank ' ' by decide]
  have hname : String.ofList (trimBy isBlank h.name.toList) = h.name := hh.trimmedName
  have hvalue : String.ofList (trimBy isBlank h.value.toList) = h.value := hh.trimmedValue
  rw [Walk.headerOfLine?, hline, cut?_append hh.name]
  simp [hblank, hname, hvalue]

theorem foldlM_headers {limit : Nat} (headers : Headers) (w : Walk)
    (plain : ∀ h ∈ headers, h.Plain) (distinct : (w.headers ++ headers).names.Nodup)
    (room : (w.headers ++ headers).length ≤ limit) :
    (headers.map fun h => Occurrence.valued .header "-H" (headerLine h)).foldlM
      (Walk.read limit) w = .ok { w with headers := w.headers ++ headers } := by
  induction headers generalizing w with
  | nil => simp [pure, Except.pure]
  | cons h headers ih =>
    have hnew : h.name ∉ w.headers.names := by
      simp only [Headers.names, List.map_append, List.map_cons, List.nodup_append] at distinct
      intro hmem
      exact distinct.2.2 h.name hmem h.name (by simp) rfl
    have hroom : ¬ limit ≤ w.headers.length := by
      simp only [List.length_append, List.length_cons] at room
      omega
    have hread : Walk.read limit w (.valued .header "-H" (headerLine h)) =
        .ok { w with headers := w.headers ++ [h] } := by
      simp [Walk.read, Walk.readValued, headerOfLine?_headerLine (plain h (by simp)),
        Walk.putHeader, hroom, Headers.put_of_not_mem hnew]
    have hrest := ih { w with headers := w.headers ++ [h] }
      (fun a ha => plain a (by simp [ha])) (by simpa using distinct) (by simpa using room)
    simpa only [List.map_cons, List.foldlM_cons, hread, bind, Except.bind, List.append_assoc,
      List.singleton_append] using hrest

theorem ofTokens_curl {limits : Limits} {method url : String} {headers : Headers}
    {body : Option String} (hurl : url ≠ "") (plain : ∀ h ∈ headers, h.Plain)
    (distinct : headers.names.Nodup) (room : headers.length ≤ limits.headers) :
    Command.ofTokens limits ("curl" :: arguments method url headers body) =
      .ok ⟨⟨method, url, headers, body⟩, []⟩ := by
  have hcurl : sameLetters "curl" "curl" = true := sameLetters_self _
  have hmethod : Walk.read limits.headers .start (.valued .method "-X" method) =
      .ok ⟨some method, none, [], none, false, #[]⟩ := rfl
  have hheaders := foldlM_headers headers ⟨some method, none, [], none, false, #[]⟩ plain
    distinct room
  have hwalk : (Occurrence.ofTokens (arguments method url headers body)).foldlM
      (Walk.read limits.headers) .start =
      .ok ⟨some method, some url, headers, body, false, #[]⟩ := by
    simp only [List.nil_append] at hheaders
    rw [ofTokens_arguments, List.cons_append, List.cons_append, List.foldlM_cons, hmethod]
    simp only [bind, Except.bind]
    rw [List.append_assoc, List.foldlM_append, hheaders]
    cases body <;> rfl
  rw [Command.ofTokens, if_pos hcurl, hwalk]
  simp [Walk.finish, hurl, Walk.inferredMethod, Walk.fullUrl, Walk.body, bind, Except.bind, pure,
    Except.pure]

/-- A request survives the trip through a command line, headers in the same order. -/
theorem parse_commandLine (limits : Limits) (method url : String) (headers : Headers)
    (body : Option String) (hurl : url ≠ "") (distinct : headers.names.Nodup)
    (plain : ∀ h ∈ headers, ':' ∉ h.name.toList ∧ trim h.name = h.name ∧ trim h.value = h.value)
    (short : (commandLine ("curl" :: arguments method url headers body)).utf8ByteSize
      ≤ limits.inputBytes)
    (room : headers.length ≤ limits.headers) :
    ∃ r, Request.of? method url headers body = some r ∧
      Command.parse limits (commandLine ("curl" :: arguments method url headers body)) =
        .ok ⟨r, []⟩ := by
  refine ⟨⟨method, url, headers, body⟩, by simp [Request.of?, hurl], ?_⟩
  rw [Command.parse, if_neg (by omega), words_commandLine]
  exact ofTokens_curl hurl (fun h hh => ⟨(plain h hh).1, (plain h hh).2.1, (plain h hh).2.2⟩)
    distinct room

/-- Apostrophes, colons, line ends, empty texts and a dash in front make no difference. -/
theorem parse_commandLine_apostrophes :
    ∃ r, Request.of? "" "-X'" [⟨"A", "b: 'c"⟩, ⟨"", ""⟩] (some "it's\n") = some r ∧
      Command.parse {} (commandLine
        ("curl" :: arguments "" "-X'" [⟨"A", "b: 'c"⟩, ⟨"", ""⟩] (some "it's\n"))) = .ok ⟨r, []⟩ :=
  parse_commandLine {} "" "-X'" [⟨"A", "b: 'c"⟩, ⟨"", ""⟩] (some "it's\n") (by decide) (by decide)
    (by decide) (by decide) (by decide)

end CurlCode
