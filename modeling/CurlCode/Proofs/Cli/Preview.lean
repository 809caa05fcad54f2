import CurlCode.Proofs.Cli.Draft

/-!
The preview leaves alone what a run does without it. Both runs of a command line share their
draft and their files, and only then does the one with the preview send the request
(`run_preview`). At a terminal both show how the program is used.
-/
namespace CurlCode.Cli

/-- A response as it is shown, after an empty line and a heading. -/
def preview (r : Http.Response) : String := "\n" ++ "// ---- response ----\n" ++ r.display

/-- What becomes of a run that goes well when the preview is asked for as well. -/
inductive Previewed (plain : Outcome) (t : Http.Transcript) : Outcome → Prop
  | response (r : Http.Response) (h : t.outcome = .ok r) :
    Previewed plain t ⟨0, plain.stdout ++ preview r, "", t.sent⟩
  | failure (e : Http.ExecuteError) (h : t.outcome = .error e) :
    Previewed plain t ⟨4, plain.stdout, "Execution error: " ++ e.message ++ "\n", t.sent⟩

theorem Previewed.stdout {plain live : Outcome} {t : Http.Transcript} (h : Previewed plain t live) :
    ∃ more, live.stdout = plain.stdout ++ more ∧ (more = "" ∨ ∃ r, more = preview r) := by
  cases h with
  | response r houtcome => exact ⟨_, rfl, .inr ⟨r, rfl⟩⟩
  | failure e houtcome => exact ⟨"", (String.append_empty ..).symm, .inl rfl⟩

/-- A run without the preview and the same run with it. -/
structure Undisturbed [Idna] [Http.Wire] (o : Options) (input : Except String String) (replies : List Http.Reply)
    (plain live : Outcome × Disk) : Prop where
  disk : live.2 = plain.2
  stdout : ∃ more, live.1.stdout = plain.1.stdout ++ more
  failed : plain.1.code ≠ 0 → live.1 = plain.1 ∧ live.1.sent = []
  /-- The output ends a line, so the preview begins with an empty one. -/
  done : plain.1.code = 0 → EndsLine plain.1.stdout ∧
    ∃ text c, input = .ok text ∧ Command.parse o.limits text = .ok c ∧
      Previewed plain.1 (Http.execute o.settings false c.request replies) live.1

theorem compile_withPreview (o : Options) (input : Except String String) :
    o.withPreview.compile input = o.compile input := rfl

section Runs

variable [Idna] [Http.Wire]

theorem conclude_plain {o : Options} (hplain : o.execute = false) (d : Draft)
    (replies : List Http.Reply) : o.conclude d (.ok ()) replies = .success d.stdout := by
  simp [Options.conclude, hplain]

theorem previewed_conclude {o : Options} (hlive : o.execute = true) (d : Draft)
    (replies : List Http.Reply) :
    Previewed (.success d.stdout) (Http.execute o.settings false d.request replies)
      (o.conclude d (.ok ()) replies) := by
  simp only [Options.conclude, hlive, Bool.not_true, Bool.false_eq_true, if_false]
  cases houtcome : (Http.execute o.settings false d.request replies).outcome with
  | ok r =>
    have h : Previewed (.success d.stdout) _ _ := .response r houtcome
    simpa [Outcome.success, preview, String.append_assoc] using h
  | error e => exact .failure e houtcome

/-- A run that fails before the request could be sent fails all the same. -/
theorem undisturbed_of_failure {o : Options} {input : Except String String}
    {replies : List Http.Reply} {outcome : Outcome} (hcode : outcome.code ≠ 0)
    (hsent : outcome.sent = []) (disk : Disk) :
    Undisturbed o input replies (outcome, disk) (outcome, disk) where
  disk := rfl
  stdout := ⟨"", (String.append_empty ..).symm⟩
  failed _ := ⟨rfl, hsent⟩
  done h := absurd h hcode

theorem undisturbed {arguments arguments' : List String} {o : Options}
    (h : readArguments arguments = .ok o) (h' : readArguments arguments' = .ok o.withPreview)
    (hlist : o.listTargets = false) (hplain : o.execute = false) {disk : Disk}
    {standardInput : StandardInput} {input : Except String String}
    (hinput : o.input? disk standardInput = some input) (replies : List Http.Reply) :
    Undisturbed o input replies
      (run arguments disk standardInput replies) (run arguments' disk standardInput replies) := by
  have hlist' : o.withPreview.listTargets = false := hlist
  have hinput' : o.withPreview.input? disk standardInput = some input := hinput
  rw [run_eq h hlist hinput, run_eq h' hlist' hinput', compile_withPreview]
  cases hcompile : o.compile input with
  | error outcome =>
    obtain ⟨code, message, hcode, rfl⟩ := Options.compile_eq_error hcompile
    exact undisturbed_of_failure hcode rfl disk
  | ok d =>
    obtain ⟨text, c, htext, hparse, hdraft⟩ := Options.compile_eq_ok hcompile
    obtain ⟨hrequest, hends⟩ := Options.draft_eq_ok (targets_ne_nil h) hdraft
    simp only
    obtain ⟨saved, disk'⟩ := d.store disk
    cases saved with
    | error e => exact undisturbed_of_failure Nat.one_ne_zero rfl disk'
    | ok u =>
      -- The switch is no part of the settings, so both runs would send the same request.
      have hpreviewed : Previewed (.success d.stdout)
          (Http.execute o.settings false d.request replies)
          (o.withPreview.conclude d (.ok ()) replies) :=
        previewed_conclude (o := o.withPreview) rfl d replies
      obtain ⟨more, hstdout, -⟩ := hpreviewed.stdout
      rw [conclude_plain hplain]
      refine ⟨rfl, ⟨more, hstdout⟩, fun hcode => absurd rfl hcode, fun _ => ?_⟩
      rw [hrequest] at hpreviewed
      exact ⟨hends, text, c, htext, hparse, hpreviewed⟩

end Runs

/-- Every command line that is accepted is accepted behind the switch, and a run of it leaves
the run without the switch undisturbed. Where only a terminal is there to be read from, both
runs end before anything is read. -/
theorem run_preview [Idna] [Http.Wire] {arguments : List String} {o : Options}
    (h : readArguments arguments = .ok o) (hlist : o.listTargets = false)
    (hplain : o.execute = false) :
    readArguments ("--execute" :: arguments) = .ok o.withPreview ∧
    ∀ arguments', readArguments arguments' = .ok o.withPreview →
      ∀ disk standardInput replies,
        let plain := run arguments disk standardInput replies
        let live := run arguments' disk standardInput replies
        (o.AtTerminal standardInput → plain = (guidance, disk) ∧ live = (guidance, disk)) ∧
        (¬ o.AtTerminal standardInput → ∃ input, o.input? disk standardInput = some input ∧
          Undisturbed o input replies plain live) := by
  refine ⟨readArguments_preview h hplain, fun arguments' h' disk standardInput replies => ?_⟩
  have hlist' : o.withPreview.listTargets = false := hlist
  refine ⟨fun hterminal => ?_, fun hother => ?_⟩
  · have hterminal' : o.withPreview.AtTerminal standardInput := hterminal
    exact ⟨run_terminal h hlist hterminal disk replies,
      run_terminal h' hlist' hterminal' disk replies⟩
  · have hsome : o.input? disk standardInput ≠ none :=
      fun hnone => hother (Options.input?_eq_none_iff.1 hnone)
    obtain ⟨input, hinput⟩ := Option.ne_none_iff_exists'.1 hsome
    exact ⟨input, hinput, undisturbed h h' hlist hplain hinput replies⟩

/-- A command on the command line, and a peer that takes the request and stays silent. -/
theorem run_preview_silence :
    readArguments ["--raw", "curl http://h"] =
      .ok { raw := some "curl http://h", targets := ["python"] } ∧
    Undisturbed { raw := some "curl http://h", targets := ["python"] } (.ok "curl http://h")
      [.silence] (run ["--raw", "curl http://h"] .empty .terminal [.silence])
      (run ["--execute", "--raw", "curl http://h"] .empty .terminal [.silence]) := by
  have h : readArguments ["--raw", "curl http://h"] =
      .ok { raw := some "curl http://h", targets := ["python"] } := rfl
  obtain ⟨hread, hrun⟩ := run_preview h rfl rfl
  have hsource : ¬ ({ raw := some "curl http://h", targets := ["python"] } : Options).AtTerminal
      .terminal := by
    rintro ⟨hsource, -⟩
    cases hsource
  obtain ⟨input, hinput, hundisturbed⟩ := (hrun _ hread .empty .terminal [.silence]).2 hsource
  obtain rfl : .ok "curl http://h" = input := Option.some.inj hinput
  exact ⟨h, hundisturbed⟩

theorem append_preview_ne (s : String) (r : Http.Response) : s ++ preview r ≠ s := by
  intro h
  have hlength := congrArg String.length h
  simp [preview] at hlength

/-- Of these two runs at a terminal neither fails, and the preview that the second one asks for
is neither shown nor reported to have failed. The same comes of asking for help. -/
theorem run_preview_terminal :
    readArguments [] = .ok { targets := ["python"] } ∧
    readArguments ["--execute"] = .ok { targets := ["python"], execute := true } ∧
    let plain := (run [] .empty .terminal [.silence]).1
    let live := (run ["--execute"] .empty .terminal [.silence]).1
    plain.code = 0 ∧ live.code ≠ 4 ∧ (∀ r, live.stdout ≠ plain.stdout ++ preview r) ∧
    let plain := (run ["--help"] .empty (.stream []) [.silence]).1
    let live := (run ["--help", "--execute"] .empty (.stream []) [.silence]).1
    plain.code = 0 ∧ live.code ≠ 4 ∧ ∀ r, live.stdout ≠ plain.stdout ++ preview r :=
  ⟨rfl, rfl, rfl, Nat.zero_ne_add_one 3, fun r h => append_preview_ne _ r h.symm,
    rfl, Nat.zero_ne_add_one 3, fun r h => append_preview_ne _ r h.symm⟩

end CurlCode.Cli
