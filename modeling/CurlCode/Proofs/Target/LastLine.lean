import CurlCode.Proofs.Target.Language

/-! Every program ends with the end of a line (`endsLine_emit`), so headings can follow it. -/
namespace CurlCode

open Source

def EndsLine (s : String) : Prop := s.toList.getLast? = some '\n'

theorem endsLine_append (s : String) {t : String} (h : EndsLine t) : EndsLine (s ++ t) := by
  rw [EndsLine, String.toList_append, List.getLast?_append, h]
  rfl

/-- A fragment that ends a line in every way of quoting. -/
def Fragment.EndsLine : Fragment → Prop
  | .text t => CurlCode.EndsLine t
  | .literal _ => False

theorem endsLine_render (q : Quoting) {s : Source} {f : Fragment} (hlast : s.getLast? = some f)
    (hf : f.EndsLine) : EndsLine (s.render q) := by
  obtain ⟨front, rfl⟩ := List.getLast?_eq_some_iff.1 hlast
  rw [render_append, render_cons, render_nil, String.append_empty]
  cases f with
  | text t => exact endsLine_append _ hf
  | literal t => exact hf.elim

namespace Language

/-- Each template closes with a text of its own, whatever the request is. -/
theorem getLast?_source (l : Language) (r : Request) :
    ∃ f, (l.source r).getLast? = some f ∧ f.EndsLine := by
  cases l <;>
    simp [source, Python.source, JavaScript.source, Axios.source, Go.source, Rust.source,
      Php.source, Ruby.source, Java.source, CSharp.source, Swift.source, List.getLast?_append,
      List.getLast?_cons,
      Fragment.EndsLine, EndsLine]

theorem endsLine_emit (l : Language) (r : Request) : EndsLine (l.target.emit r) := by
  obtain ⟨f, hlast, hf⟩ := l.getLast?_source r
  rw [emit_target]
  exact endsLine_render l.quoting hlast hf

end Language

theorem endsLine_builtin {t : Target} (h : t ∈ Target.builtin) (r : Request) :
    EndsLine (t.emit r) := by
  rw [Language.builtin_eq_map_target] at h
  obtain ⟨l, -, rfl⟩ := List.mem_map.1 h
  exact l.endsLine_emit r

end CurlCode
