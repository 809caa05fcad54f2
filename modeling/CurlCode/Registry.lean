import CurlCode.Target

/-!
A set of targets by id. A target registered under an id that is taken replaces the other
in its place; a new id goes to the end, and removing one keeps the order of the rest.
-/
namespace CurlCode

inductive EmitError where
  | unsupportedTarget (id : String)
  deriving DecidableEq, Repr

def EmitError.message : EmitError → String
  | .unsupportedTarget id => "unsupported target '" ++ id ++ "'"

structure Registry where
  targets : List Target

namespace Registry

def empty : Registry := ⟨[]⟩

def get? (g : Registry) (id : String) : Option Target := g.targets.find? fun t => t.id = id

def ids (g : Registry) : List String := g.targets.map Target.id

def size (g : Registry) : Nat := g.targets.length

def isEmpty (g : Registry) : Bool := g.targets.isEmpty

/-- The targets with one more, or with one replaced. -/
def place (t : Target) : List Target → List Target
  | [] => [t]
  | u :: us => if u.id = t.id then t :: us else u :: place t us

theorem find?_place_same (t : Target) (us : List Target) :
    (place t us).find? (fun u => u.id = t.id) = some t := by
  induction us with
  | nil => simp [place]
  | cons u us ih => by_cases h : u.id = t.id <;> simp [place, h, ih]

theorem find?_place_other (t : Target) (us : List Target) {id : String} (h : id ≠ t.id) :
    (place t us).find? (fun u => u.id = id) = us.find? fun u => u.id = id := by
  induction us with
  | nil => simp [place, Ne.symm h]
  | cons u us ih =>
    by_cases hu : u.id = t.id
    · simp [place, hu, Ne.symm h]
    · by_cases hi : u.id = id
      · simp [place, hi, h]
      · simp [place, hu, hi, ih]

/-- Add a target, and give back the one that had its id. -/
def register (g : Registry) (t : Target) : Option Target × Registry :=
  (g.get? t.id, ⟨place t g.targets⟩)

/-- Take a target out, and give it back. -/
def unregister (g : Registry) (id : String) : Option Target × Registry :=
  (g.get? id, ⟨g.targets.filter fun t => t.id ≠ id⟩)

def builtin : Registry := Target.builtin.foldl (fun g t => (g.register t).2) empty

def emit (g : Registry) (r : Request) (id : String) : Except EmitError Emission :=
  match g.get? id with
  | some t => .ok (t.run r)
  | none => .error (.unsupportedTarget id)

/-- The programs of all targets, in order. -/
def emitAll (g : Registry) (r : Request) : List Emission := g.targets.map fun t => t.run r

end Registry

/-- The program of a built-in target. -/
def emit (r : Request) (id : String) : Except EmitError Emission :=
  match Target.builtin.find? fun t => t.id = id with
  | some t => .ok (t.run r)
  | none => .error (.unsupportedTarget id)

end CurlCode
