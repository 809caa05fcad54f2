import CurlCode.Cli.Options

/-!
The help text, in two layouts of one table: a line for each option, or a paragraph.
-/
namespace CurlCode.Cli.Help

def programName : String := "curlgen-cli"
def version : String := "0.1.0"

structure Entry where
  argument : Argument
  about : String
  /-- Other words for the summary. -/
  brief : Option String := none
  /-- The values that can be chosen, with their meanings. -/
  choices : List (String × String) := []
  preset : Option String := none
  deriving Repr

def fileAbout : String :=
  "Path to a file containing a curl command. "
    ++ "Reads from stdin when neither FILE nor --raw is given"

def entries : List Entry :=
  [{ argument := .setting .raw, about := "The curl command as a single argument" },
    { argument := .setting .target,
      about := "Target to generate (repeatable). See --list-targets", preset := some "python" },
    { argument := .switch .all, about := "Generate every built-in target" },
    { argument := .setting .format, about := "Output format",
      choices := [("code", "Generated source code"), ("json", "Parsed request as JSON"),
        ("debug", "Human-readable parsed request")],
      preset := some "code" },
    { argument := .switch .pretty,
      about := "Pretty-print JSON output (ignored for other formats)" },
    { argument := .switch .listTargets, about := "List the available targets and exit" },
    { argument := .setting .save,
      about := "Also write each generated program to DIR as `request.<ext>`" },
    { argument := .switch .execute,
      about := "Send the request and print the response after the generated code" },
    { argument := .setting .timeout, about := "Timeout in seconds for --execute",
      preset := some "30" },
    { argument := .switch .noRedirects, about := "Do not follow redirects with --execute" },
    { argument := .setting .inputBytes, about := "Maximum allowed input length in bytes",
      preset := some "65536" },
    { argument := .setting .headers, about := "Maximum number of headers allowed",
      preset := some "128" },
    { argument := .switch .help, about := "Print help (see a summary with '-h')",
      brief := some "Print help (see more with '--help')" },
    { argument := .switch .version, about := "Print version" }]

def spaces (n : Nat) : String := String.ofList (List.replicate n ' ')

/-- The spellings of an option in a column of their own. -/
def spellings (e : Entry) : String :=
  "  " ++ (match e.argument.short? with
    | some c => String.ofList ['-', c] ++ ", "
    | none => spaces 4) ++ e.argument.usage

/-- The widest spellings, with the gap after them. -/
def column : Nat := (entries.map fun e => (spellings e).length).foldl max 0 + 2

def summaryLine (e : Entry) : String :=
  spellings e ++ spaces (column - (spellings e).length) ++ e.brief.getD e.about
    ++ (match e.preset with
      | some v => " [default: " ++ v ++ "]"
      | none => "")
    ++ (if e.choices.isEmpty then ""
      else " [possible values: " ++ String.intercalate ", " (e.choices.map Prod.fst) ++ "]")
    ++ "\n"

def choiceLine (width : Nat) (choice : String × String) : String :=
  spaces 10 ++ "- " ++ choice.1 ++ ":" ++ spaces (width - choice.1.length + 1) ++ choice.2 ++ "\n"

def choicesText (choices : List (String × String)) : String :=
  if choices.isEmpty then ""
  else
    "\n" ++ spaces 10 ++ "Possible values:\n"
      ++ String.join (choices.map
        (choiceLine ((choices.map fun c => c.1.length).foldl max 0)))

def paragraph (e : Entry) : String :=
  spellings e ++ "\n" ++ spaces 10 ++ e.about ++ "\n" ++ choicesText e.choices
    ++ (match e.preset with
      | some v => spaces 10 ++ "\n" ++ spaces 10 ++ "[default: " ++ v ++ "]\n"
      | none => "")

def heading : String :=
  "Translate curl invocations into idiomatic HTTP client code for many languages\n\n"
    ++ "Usage: " ++ programName ++ " [OPTIONS] [FILE]\n\nArguments:\n"

def summary : String :=
  heading ++ "  [FILE]  " ++ fileAbout ++ "\n\nOptions:\n" ++ String.join (entries.map summaryLine)

def full : String :=
  heading ++ "  [FILE]\n" ++ spaces 10 ++ fileAbout ++ "\n\nOptions:\n"
    ++ String.intercalate "\n" (entries.map paragraph)

def versionLine : String := programName ++ " " ++ version ++ "\n"

end CurlCode.Cli.Help
