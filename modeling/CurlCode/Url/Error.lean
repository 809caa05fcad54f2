/-! Why a text is no URL. -/
namespace CurlCode

inductive UrlError where
  | relative
  | emptyHost
  | port
  | ipv4
  | ipv6
  /-- Text that is no domain, in a special scheme. -/
  | domain
  /-- A character that no host has, in another scheme. -/
  | domainCharacter
  deriving DecidableEq, Repr

def UrlError.message : UrlError → String
  | .relative => "relative URL without a base"
  | .emptyHost => "empty host"
  | .port => "invalid port number"
  | .ipv4 => "invalid IPv4 address"
  | .ipv6 => "invalid IPv6 address"
  | .domain => "invalid international domain name"
  | .domainCharacter => "invalid domain character"

end CurlCode
