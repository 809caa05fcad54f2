/-!
The options of `curl` that a request is read from, and those whose value has to be
skipped with them. All other options count as unknown.
-/
namespace CurlCode

inductive Flag where
  | method
  | header
  | data
  | dataUrlEncode
  | json
  | url
  | userAgent
  | referer
  /-- Ask for the headers only. -/
  | head
  /-- Send the data in the query. -/
  | get
  /-- Takes a value, and says nothing about the request. -/
  | skipped
  deriving DecidableEq, Repr

namespace Flag

def takesValue : Flag → Bool
  | .head | .get => false
  | _ => true

def supported : List (String × Flag) :=
  [("-X", .method), ("--request", .method),
    ("-H", .header), ("--header", .header),
    ("-d", .data), ("--data", .data), ("--data-raw", .data), ("--data-binary", .data),
    ("--data-ascii", .data),
    ("--data-urlencode", .dataUrlEncode),
    ("--json", .json),
    ("--url", .url),
    ("-A", .userAgent), ("--user-agent", .userAgent),
    ("-e", .referer), ("--referer", .referer),
    ("-I", .head), ("--head", .head),
    ("-G", .get), ("--get", .get)]

def skippedSpellings : List String :=
  ["-u", "--user", "-b", "--cookie", "-c", "--cookie-jar", "-x", "--proxy", "-U",
    "--proxy-user", "--proxy-header", "--noproxy", "--preproxy", "--socks5",
    "--socks5-hostname", "-F", "--form", "--form-string", "-o", "--output", "-T",
    "--upload-file", "-m", "--max-time", "--connect-timeout", "-w", "--write-out", "-D",
    "--dump-header", "-E", "--cert", "--cert-type", "--key", "--key-type", "--pass",
    "--cacert", "--capath", "--ciphers", "-r", "--range", "-C", "--continue-at", "-z",
    "--time-cond", "-K", "--config", "--retry", "--retry-delay", "--retry-max-time",
    "--limit-rate", "-Y", "--speed-limit", "-y", "--speed-time", "--max-redirs",
    "--max-filesize", "--resolve", "--connect-to", "--interface", "--local-port",
    "--dns-servers", "--unix-socket", "--abstract-unix-socket", "--oauth2-bearer",
    "--aws-sigv4", "--request-target", "--trace", "--trace-ascii", "--stderr"]

/-- Every spelling that is recognised. -/
def table : List (String × Flag) := supported ++ skippedSpellings.map (·, .skipped)

def ofSpelling? (token : String) : Option Flag := table.lookup token

/-- A short flag with its value in the same token, as in `-XPOST`. Only the two-character
spelling of a flag with a value splits off, so `-sSL` stays whole. -/
def attached? (token : String) : Option (Flag × String) :=
  match token.toList with
  | '-' :: letter :: c :: value =>
    match ofSpelling? (String.ofList ['-', letter]) with
    | some flag => if flag.takesValue then some (flag, String.ofList (c :: value)) else none
    | none => none
  | _ => none

end Flag

end CurlCode
