import CurlCode.Header
import CurlCode.Text.Pieces

/-!
The request that a command line describes, and what its `Content-Type` says about the
body. The classification is a function of the headers, so it never disagrees with them.
-/
namespace CurlCode

open Text

/-- What the first `Content-Type` header names; several may hold at once. -/
structure Facets where
  json : Bool
  form : Bool
  multipart : Bool
  deriving DecidableEq, Repr

inductive BodyFormat where
  | json | form | multipart | raw
  deriving DecidableEq, Repr

namespace Facets

def none : Facets := ⟨false, false, false⟩

/-- The media types found in a `Content-Type` value, in any letter case. -/
def ofContentType (value : String) : Facets :=
  let mentions (mediaType : String) := occursIn mediaType.toList (lower value).toList
  ⟨mentions "application/json", mentions "application/x-www-form-urlencoded",
    mentions "multipart/form-data"⟩

def ofHeaders (hs : Headers) : Facets :=
  match hs.lookup? "content-type" with
  | some value => ofContentType value
  | .none => Facets.none

/-- JSON goes before forms, and forms before multipart bodies. -/
def bodyFormat (f : Facets) : BodyFormat :=
  if f.json then .json else if f.form then .form else if f.multipart then .multipart else .raw

end Facets

structure Request where
  method : String
  url : String
  headers : Headers
  body : Option String
  deriving DecidableEq, Repr

namespace Request

/-- A request needs a URL that is not empty. -/
def of? (method url : String) (headers : Headers) (body : Option String) : Option Request :=
  if url = "" then none else some ⟨method, url, headers, body⟩

def facets (r : Request) : Facets := .ofHeaders r.headers

/-- The method and the URL. -/
def summary (r : Request) : String := r.method ++ " " ++ r.url

end Request

/-- The methods that many libraries have a word of their own for. -/
inductive StandardMethod where
  | get | post | put | patch | delete | head | options
  deriving DecidableEq, Repr

namespace StandardMethod

def name : StandardMethod → String
  | .get => "GET"
  | .post => "POST"
  | .put => "PUT"
  | .patch => "PATCH"
  | .delete => "DELETE"
  | .head => "HEAD"
  | .options => "OPTIONS"

def lowerName (m : StandardMethod) : String := lower m.name

/-- The name with a capital first letter only. -/
def capitalName : StandardMethod → String
  | .get => "Get"
  | .post => "Post"
  | .put => "Put"
  | .patch => "Patch"
  | .delete => "Delete"
  | .head => "Head"
  | .options => "Options"

def all : List StandardMethod := [.get, .post, .put, .patch, .delete, .head, .options]

/-- The standard method spelled in any letter case. -/
def of? (method : String) : Option StandardMethod :=
  all.find? fun m => sameLetters m.name method

theorem mem_all (m : StandardMethod) : m ∈ all := by cases m <;> decide

end StandardMethod

namespace Request

def standardMethod? (r : Request) : Option StandardMethod := StandardMethod.of? r.method

/-- Standard methods in capitals; any other one as given, since its case may matter. -/
def canonicalMethod (r : Request) : String :=
  match r.standardMethod? with
  | some m => m.name
  | none => r.method

end Request

end CurlCode
