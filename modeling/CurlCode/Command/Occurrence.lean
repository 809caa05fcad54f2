import CurlCode.Command.Flag

/-!
The arguments of a command line, cut into flags with their values. A flag that takes a
value takes the one attached to it, or else the next token, whatever that looks like.
The cut depends on the tokens alone.
-/
namespace CurlCode

inductive Occurrence where
  /-- A token that does not start with a dash. -/
  | bare (token : String)
  /-- A flag without a value. -/
  | switch (flag : Flag)
  /-- A flag with its value; `token` is the token that holds the flag. -/
  | valued (flag : Flag) (token value : String)
  /-- A token that means nothing here: an unknown flag, or one whose value is missing. -/
  | stray (token : String)
  deriving DecidableEq, Repr

/-- What one token is, before the next one is seen. -/
inductive TokenKind where
  | bare
  | switch (flag : Flag)
  | attached (flag : Flag) (value : String)
  | awaiting (flag : Flag)
  | unknown
  deriving DecidableEq, Repr

def TokenKind.ofToken (token : String) : TokenKind :=
  if token.toList.head? ≠ some '-' then .bare
  else match Flag.attached? token with
    | some (flag, value) => .attached flag value
    | none =>
      match Flag.ofSpelling? token with
      | none => .unknown
      | some flag => if flag.takesValue then .awaiting flag else .switch flag

namespace Occurrence

def ofTokens : List String → List Occurrence
  | [] => []
  | [token] =>
    match TokenKind.ofToken token with
    | .bare => [.bare token]
    | .switch flag => [.switch flag]
    | .attached flag value => [.valued flag token value]
    | .awaiting _ | .unknown => [.stray token]
  | token :: next :: rest =>
    match TokenKind.ofToken token with
    | .bare => .bare token :: ofTokens (next :: rest)
    | .switch flag => .switch flag :: ofTokens (next :: rest)
    | .attached flag value => .valued flag token value :: ofTokens (next :: rest)
    | .awaiting flag => .valued flag token next :: ofTokens rest
    | .unknown => .stray token :: ofTokens (next :: rest)

end Occurrence

end CurlCode
