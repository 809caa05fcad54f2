import CurlCode.Convert
import CurlCode.Proofs.Cli.Preview
import CurlCode.Proofs.Command.Outcome

/-!
Choosing targets is all or nothing: one that is not there stops the run before anything is
printed, saved or sent, and otherwise the programs come out in the order of the targets
(`run_selection`).
-/
namespace CurlCode.Cli

open Text

/-- One program as it is, or several under headings with an empty line between them. -/
def layout (code : String → String) : List String → String
  | [id] => code id
  | ids => String.intercalate "\n" (ids.map fun id => "// ---- " ++ id ++ " ----\n" ++ code id)

theorem programs_programOf (r : Request) (ids : List String) :
    programs (ids.map (programOf r)) = layout (fun id => (programOf r id).code) ids := by
  cases ids with
  | nil => rfl
  | cons id ids =>
    cases ids with
    | nil => rfl
    | cons id' ids => simp [programs, layout, headed, target_programOf, Function.comp_def]

theorem not_blank_of_parse {limits : Limits} {text : String} {c : Command}
    (h : Command.parse limits text = .ok c) : ¬ text.toList.all isBlank := by
  intro hblank
  have hwords := (Shell.words_eq_nil_iff text).2 (Shell.vacant_of_blank hblank)
  unfold Command.parse at h
  split at h
  · cases h
  · rw [hwords] at h
    cases h

theorem compile_of_parse {o : Options} {text : String} {c : Command}
    (h : Command.parse o.limits text = .ok c) : o.compile (.ok text) = o.draft c := by
  simp [Options.compile, not_blank_of_parse h, h]

/-- The draft is printed whatever becomes of the files and the request, and after it no more
than the preview. -/
theorem stdout_conclude [Idna] [Http.Wire] (o : Options) (d : Draft) (saved : Except SystemError Unit)
    (replies : List Http.Reply) :
    ∃ more, (o.conclude d saved replies).stdout = d.stdout ++ more ∧
      (more = "" ∨ o.execute = true ∧ ∃ r, more = preview r) := by
  have hnothing : d.stdout = d.stdout ++ "" := (String.append_empty ..).symm
  cases saved with
  | error e => exact ⟨"", hnothing, .inl rfl⟩
  | ok u =>
    cases hexecute : o.execute with
    | false =>
      rw [conclude_plain hexecute]
      exact ⟨"", hnothing, .inl rfl⟩
    | true =>
      obtain ⟨more, hstdout, hmore⟩ := (previewed_conclude hexecute d replies).stdout
      exact ⟨more, hstdout, hmore.imp_right fun hr => ⟨rfl, hr⟩⟩

/-- What a target comes to for a text: the program that the library gives for it. -/
structure Selected (limits : Limits) (text : String) (id code : String) : Prop where
  emit : ∃ c e, Command.parse limits text = .ok c ∧ CurlCode.emit c.request id = .ok e ∧
    e.code = code
  convert : limits = {} → ∃ e, CurlCode.convert text id = .ok e ∧ e.code = code
  endsLine : EndsLine code

theorem selected_programOf {limits : Limits} {text : String} {c : Command}
    (hparse : Command.parse limits text = .ok c) {id : String}
    (hid : id ∈ Target.builtin.map Target.id) :
    Selected limits text id (programOf c.request id).code := by
  have hemit := emit_of_mem hid c.request
  refine ⟨⟨c, _, hparse, hemit, rfl⟩, ?_, endsLine_programOf hid c.request⟩
  rintro rfl
  refine ⟨programOf c.request id, ?_, rfl⟩
  simp only [convert, hparse, hemit]
  rfl

theorem failure_unsupported (id : String) :
    Outcome.failure 3 ("Error: " ++ (EmitError.unsupportedTarget id).message) =
      ⟨3, "", "Error: unsupported target '" ++ id ++ "'\n", []⟩ := by
  have htext : "Error: " ++ ("unsupported target '" ++ id ++ "'") ++ "\n" =
      "Error: unsupported target '" ++ id ++ "'\n" := by
    -- By characters: the texts are cut in different places.
    simp [← String.toList_inj]
  exact congrArg (fun s => (⟨3, "", s, []⟩ : Outcome)) htext

/-- A run that comes to its targets stops at the first that is not there and leaves no trace;
if all are there, their programs come out first, in the order of the targets. -/
theorem run_selection [Idna] [Http.Wire] {arguments : List String} {o : Options}
    (h : readArguments arguments = .ok o) (hlist : o.listTargets = false)
    (hformat : o.format = .code) (hall : o.all = false) (disk : Disk)
    (standardInput : StandardInput) {text : String} {c : Command}
    (hinput : o.input? disk standardInput = some (.ok text))
    (hparse : Command.parse o.limits text = .ok c) (replies : List Http.Reply) :
    ((∃ id ∈ o.targets, id ∉ Target.builtin.map Target.id) →
      ∃ before id after, o.targets = before ++ id :: after ∧
        (∀ i ∈ before, i ∈ Target.builtin.map Target.id) ∧
        id ∉ Target.builtin.map Target.id ∧
        run arguments disk standardInput replies =
          (⟨3, "", "Error: unsupported target '" ++ id ++ "'\n", []⟩, disk)) ∧
    ((∀ id ∈ o.targets, id ∈ Target.builtin.map Target.id) →
      ∃ (code : String → String) (more : String),
        (∀ id ∈ o.targets, Selected o.limits text id (code id)) ∧
        (run arguments disk standardInput replies).1.stdout = layout code o.targets ++ more ∧
        (more = "" ∨ o.execute = true ∧ ∃ r, more = preview r)) := by
  have hcompile : o.compile (.ok text) = o.draft c := compile_of_parse hparse
  constructor
  · intro hunknown
    obtain ⟨before, id, after, htargets, hbefore, hid, herror⟩ := generate_unknown hall hunknown
    refine ⟨before, id, after, htargets, hbefore, hid, ?_⟩
    rw [run_eq h hlist hinput, hcompile, Options.draft_of_generate_error hformat (herror c.request),
      failure_unsupported]
  · intro hknown
    have hdraft := Options.draft_of_generate hformat (generate_known hall hknown c.request)
    have hlayout := programs_programOf c.request o.targets
    rw [run_eq h hlist hinput, hcompile, hdraft]
    obtain ⟨more, hstdout, hmore⟩ := stdout_conclude o _ _ replies
    refine ⟨_, more, fun id hid => selected_programOf hparse (hknown id hid), ?_, hmore⟩
    rw [← hlayout]
    exact hstdout

/-- A target that is not there, between two that are, with a folder to save to. -/
theorem run_selection_between :
    let arguments := ["--raw", "curl http://h", "-tgo", "-t", "cobol", "--target=php", "--save",
      "out", "--execute"]
    let o : Options :=
      { raw := some "curl http://h", targets := ["go", "cobol", "php"], save := some "out",
        execute := true }
    readArguments arguments = .ok o ∧
    Command.parse o.limits "curl http://h" = .ok ⟨⟨"GET", "http://h", [], none⟩, []⟩ ∧
    "cobol" ∉ Target.builtin.map Target.id ∧
    ∃ before id after, o.targets = before ++ id :: after ∧
      (∀ i ∈ before, i ∈ Target.builtin.map Target.id) ∧ id ∉ Target.builtin.map Target.id ∧
      run arguments .empty (.stream []) [.silence] =
        (⟨3, "", "Error: unsupported target '" ++ id ++ "'\n", []⟩, .empty) := by
  intro arguments o
  have h : readArguments arguments = .ok o := rfl
  have hparse : Command.parse o.limits "curl http://h" =
      .ok ⟨⟨"GET", "http://h", [], none⟩, []⟩ := rfl
  have hunknown : "cobol" ∉ Target.builtin.map Target.id := by decide
  have hrun := run_selection h rfl rfl rfl .empty (.stream []) rfl hparse [.silence]
  exact ⟨h, hparse, hunknown, hrun.1 ⟨"cobol", by decide, hunknown⟩⟩

end CurlCode.Cli
