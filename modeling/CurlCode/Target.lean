import CurlCode.Target.Axios
import CurlCode.Target.CSharp
import CurlCode.Target.Go
import CurlCode.Target.Java
import CurlCode.Target.JavaScript
import CurlCode.Target.Php
import CurlCode.Target.Python
import CurlCode.Target.Ruby
import CurlCode.Target.Rust
import CurlCode.Target.Swift

/-!
Targets: the kinds of program that a request can be written as. A built-in target is its
source in fragments together with the way its language writes a string.
-/
namespace CurlCode

/-- The program that a target gives for a request. -/
structure Emission where
  target : String
  code : String
  /-- The usual extension of the file's name, without the dot. -/
  extension : Option String
  deriving DecidableEq, Repr

/-- A file name for the program, from its first part. -/
def Emission.fileName (e : Emission) (stem : String) : String :=
  match e.extension with
  | some x => stem ++ "." ++ x
  | none => stem

structure Target where
  id : String
  label : String
  extension : Option String
  emit : Request → String

namespace Target

def run (t : Target) (r : Request) : Emission := ⟨t.id, t.emit r, t.extension⟩

def python : Target :=
  ⟨"python", "Python (requests)", some "py", fun r => (Python.source r).render .double⟩

def javaScript : Target :=
  ⟨"javascript", "JavaScript (fetch)", some "js", fun r => (JavaScript.source r).render .double⟩

def axios : Target :=
  ⟨"axios", "Node.js (axios)", some "js", fun r => (Axios.source r).render .double⟩

def go : Target := ⟨"go", "Go (net/http)", some "go", fun r => (Go.source r).render .double⟩

def rust : Target :=
  ⟨"rust", "Rust (reqwest)", some "rs", fun r => (Rust.source r).render .braced⟩

def php : Target :=
  ⟨"php", "PHP (ext-curl)", some "php", fun r => (Php.source r).render .single⟩

def ruby : Target :=
  ⟨"ruby", "Ruby (Net::HTTP)", some "rb", fun r => (Ruby.source r).render .single⟩

def java : Target :=
  ⟨"java", "Java (java.net.http)", some "java", fun r => (Java.source r).render .double⟩

def cSharp : Target :=
  ⟨"csharp", "C# (HttpClient)", some "cs", fun r => (CSharp.source r).render .double⟩

def swift : Target :=
  ⟨"swift", "Swift (URLSession)", some "swift", fun r => (Swift.source r).render .braced⟩

/-- The targets that come with the library, in the order in which they are shown. -/
def builtin : List Target :=
  [python, javaScript, axios, go, rust, php, ruby, java, cSharp, swift]

end Target

end CurlCode
