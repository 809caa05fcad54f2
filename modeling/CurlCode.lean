import CurlCode.Shell.Words
import CurlCode.Text.Pieces
import CurlCode.Text.Utf8
import CurlCode.Text.Percent
import CurlCode.Text.Base64
import CurlCode.Header
import CurlCode.Request
import CurlCode.Form
import CurlCode.Command
import CurlCode.Json.Token
import CurlCode.Json.Reader
import CurlCode.Json.Printer
import CurlCode.Registry
import CurlCode.Report
import CurlCode.Url.Resolve
import CurlCode.Http.Session
import CurlCode.Cli.Arguments
import CurlCode.Cli.Help
import CurlCode.Cli.Disk
import CurlCode.Cli.Run
import CurlCode.Main
import CurlCode.Proofs.Command.Cut
import CurlCode.Proofs.Command.Meaning
import CurlCode.Proofs.Command.RoundTrip
import CurlCode.Proofs.Target.Injective
import CurlCode.Proofs.Command.Insertions
import CurlCode.Proofs.Command.Outcome
import CurlCode.Proofs.Target.JsonLiteral
import CurlCode.Proofs.Registry
import CurlCode.Proofs.Json.Spelling
import CurlCode.Proofs.Json.Strict
import CurlCode.Proofs.Report
import CurlCode.Proofs.Cli.Selection
import CurlCode.Proofs.Form
import CurlCode.Proofs.Target.Axios
import CurlCode.Proofs.Command.Query
import CurlCode.Proofs.Command.Defaults
import CurlCode.Proofs.Command.Ignored
import CurlCode.Proofs.WebForm
import CurlCode.Proofs.Quotation
import CurlCode.Proofs.Target.Body
import CurlCode.Proofs.Http.Refusal
import CurlCode.Proofs.Http.Wire
import CurlCode.Proofs.Http.Shown
import CurlCode.Proofs.Http.Redirects
import CurlCode.Proofs.Http.Body
import CurlCode.Proofs.Command.Attached
import CurlCode.Proofs.Cli.Saving
import CurlCode.Proofs.Target.NewLines
import CurlCode.Proofs.Target.PhpArrays
import CurlCode.Proofs.Shell.Boundaries
import CurlCode.Proofs.Shell.Bytes
