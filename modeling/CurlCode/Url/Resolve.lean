import CurlCode.Url.Parse

/-!
References found on a page. A reference with a scheme of its own stands alone; any other
takes from the URL of the page what it leaves out.
-/
namespace CurlCode.Url

open Text

/-- The path and query of the page, without the fragment. -/
def samePage (base : Url) (p : Parts) : Url :=
  let u := attach p base
  { u with query := if p.query.isSome then u.query else base.query }

/-- A reference without a scheme, or with only the scheme of the page. -/
def resolveRelative [Idna] (base : Url) (parts : List String) (p : Parts) (s : List Char) :
    Except UrlError Url :=
  match s with
  | [] => .ok (samePage base p)
  | c :: r =>
    if isSlash true c then
      if (r.head?.map (isSlash true)).getD false then
        readAuthority base.scheme p (r.dropWhile (isSlash true))
      else .ok (attach p { base with path := .segments (follow false [] (splitPath true r)) })
    else
      .ok (attach p
        { base with path := .segments (follow false parts.dropLast (splitPath true (c :: r))) })

/-- The URL that a reference names on a page with a special URL other than a file. -/
def resolve [Idna] (base : Url) (reference : String) : Except UrlError Url :=
  let p := Parts.of (cleaned reference)
  match base.path, readScheme? p.main with
  | .opaquePath _, none => .error .relative
  | .opaquePath _, some (scheme, rest) => readAfterScheme scheme p rest
  | .segments parts, none => resolveRelative base parts p p.main
  | .segments parts, some (scheme, rest) =>
    if scheme = base.scheme ∧ isSpecial scheme ∧ (rest.takeWhile (isSlash true)).length < 2 then
      resolveRelative base parts p rest
    else readAfterScheme scheme p rest

end CurlCode.Url
