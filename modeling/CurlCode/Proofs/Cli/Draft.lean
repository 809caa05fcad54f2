import CurlCode.Cli.Run
import CurlCode.Proofs.Cli.Arguments
import CurlCode.Proofs.Target.LastLine

/-!
A run in its stages: the input, the draft, the files and the end (`run_eq`), unless there is
only a terminal to read from (`run_terminal`). The programs of a draft are made for all targets
or for none, and what a draft prints ends a line.
-/
namespace CurlCode.Cli

variable {α β ε : Type}

theorem mapM_eq_ok {f : α → Except ε β} {g : α → β} {as : List α}
    (h : ∀ a ∈ as, f a = .ok (g a)) : as.mapM f = .ok (as.map g) := by
  induction as with
  | nil => rfl
  | cons a as ih =>
    have hrest := ih fun b hb => h b (.tail _ hb)
    rw [List.mapM_cons, h a (.head _), hrest]
    rfl

/-- The first that fails is the one that is reported. -/
theorem mapM_eq_error {f : α → Except ε β} {g : α → β} {before after : List α} {a : α} {e : ε}
    (hbefore : ∀ b ∈ before, f b = .ok (g b)) (ha : f a = .error e) :
    (before ++ a :: after).mapM f = .error e := by
  rw [List.mapM_append, mapM_eq_ok hbefore, List.mapM_cons, ha]
  rfl

theorem endsLine_intercalate (separator : String) {ss : List String} (hne : ss ≠ [])
    (h : ∀ s ∈ ss, EndsLine s) : EndsLine (String.intercalate separator ss) := by
  induction ss with
  | nil => exact absurd rfl hne
  | cons s ss ih =>
    cases ss with
    | nil => simpa using h s (.head _)
    | cons t ss =>
      rw [String.intercalate_cons_cons]
      exact endsLine_append _ (ih (by simp) fun u hu => h u (.tail _ hu))

/-! ### Programs -/

/-- The program of a built-in target. -/
def programOf (r : Request) (id : String) : Emission :=
  match Target.builtin.find? fun t => t.id = id with
  | some t => t.run r
  | none => ⟨id, "", none⟩

theorem find?_of_mem {id : String} (h : id ∈ Target.builtin.map Target.id) :
    ∃ t ∈ Target.builtin, Target.builtin.find? (fun t => t.id = id) = some t := by
  obtain ⟨t, ht, hid⟩ := List.mem_map.1 h
  obtain ⟨u, hu⟩ : ∃ u, Target.builtin.find? (fun t => t.id = id) = some u :=
    Option.isSome_iff_exists.1 (List.find?_isSome.2 ⟨t, ht, by simpa using hid⟩)
  exact ⟨u, List.mem_of_find?_eq_some hu, hu⟩

theorem emit_of_mem {id : String} (h : id ∈ Target.builtin.map Target.id) (r : Request) :
    emit r id = .ok (programOf r id) := by
  obtain ⟨t, -, hfind⟩ := find?_of_mem h
  rw [emit, programOf, hfind]

theorem target_programOf (r : Request) (id : String) : (programOf r id).target = id := by
  unfold programOf
  split
  · rename_i t ht
    have hid : t.id = id := by simpa using List.find?_some ht
    exact hid
  · rfl

theorem endsLine_programOf {id : String} (h : id ∈ Target.builtin.map Target.id) (r : Request) :
    EndsLine (programOf r id).code := by
  obtain ⟨t, ht, hfind⟩ := find?_of_mem h
  rw [programOf, hfind]
  exact endsLine_builtin ht r

theorem emit_of_not_mem {id : String} (h : id ∉ Target.builtin.map Target.id) (r : Request) :
    emit r id = .error (.unsupportedTarget id) := by
  have hnone : Target.builtin.find? (fun t => t.id = id) = none := by
    rw [List.find?_eq_none]
    intro t ht hid
    exact h (List.mem_map.2 ⟨t, ht, by simpa using hid⟩)
  rw [emit, hnone]

theorem endsLine_programs {es : List Emission} (hne : es ≠ [])
    (h : ∀ e ∈ es, EndsLine e.code) : EndsLine (programs es) := by
  unfold programs
  split
  · exact h _ (.head _)
  · refine endsLine_intercalate _ (by simpa using hne) fun s hs => ?_
    obtain ⟨e, he, rfl⟩ := List.mem_map.1 hs
    exact endsLine_append _ (h e he)

theorem generate_known {o : Options} (hall : o.all = false)
    (h : ∀ id ∈ o.targets, id ∈ Target.builtin.map Target.id) (r : Request) :
    o.generate r = .ok (o.targets.map (programOf r)) := by
  rw [Options.generate, if_neg (by simp [hall])]
  exact mapM_eq_ok fun id hid => emit_of_mem (h id hid) r

theorem generate_unknown {o : Options} (hall : o.all = false)
    (h : ∃ id ∈ o.targets, id ∉ Target.builtin.map Target.id) :
    ∃ before id after, o.targets = before ++ id :: after ∧
      (∀ i ∈ before, i ∈ Target.builtin.map Target.id) ∧ id ∉ Target.builtin.map Target.id ∧
      ∀ r, o.generate r = .error (.unsupportedTarget id) := by
  obtain ⟨id, hfind⟩ : ∃ id, o.targets.find? (· ∉ Target.builtin.map Target.id) = some id := by
    refine Option.isSome_iff_exists.1 (List.find?_isSome.2 ?_)
    simpa using h
  obtain ⟨hunknown, before, after, htargets, hbefore⟩ := List.find?_eq_some_iff_append.1 hfind
  have hknown : ∀ i ∈ before, i ∈ Target.builtin.map Target.id := by simpa using hbefore
  have hid : id ∉ Target.builtin.map Target.id := by simpa using hunknown
  refine ⟨before, id, after, htargets, hknown, hid, fun r => ?_⟩
  rw [Options.generate, if_neg (by simp [hall]), htargets]
  exact mapM_eq_error (fun i hi => emit_of_mem (hknown i hi) r) (emit_of_not_mem hid r)

theorem generate_eq_ok {o : Options} {r : Request} {es : List Emission} (htargets : o.targets ≠ [])
    (h : o.generate r = .ok es) : es ≠ [] ∧ ∀ e ∈ es, EndsLine e.code := by
  cases hall : o.all with
  | true =>
    rw [Options.generate, if_pos hall] at h
    obtain rfl := Except.ok.inj h
    refine ⟨List.cons_ne_nil _ _, fun e he => ?_⟩
    obtain ⟨t, ht, rfl⟩ := List.mem_map.1 he
    exact endsLine_builtin ht r
  | false =>
    by_cases hknown : ∀ id ∈ o.targets, id ∈ Target.builtin.map Target.id
    · rw [generate_known hall hknown] at h
      obtain rfl := Except.ok.inj h
      refine ⟨by simpa using htargets, fun e he => ?_⟩
      obtain ⟨id, hid, rfl⟩ := List.mem_map.1 he
      exact endsLine_programOf (hknown id hid) r
    · obtain ⟨before, id, after, -, -, -, herror⟩ :=
        generate_unknown hall (by simpa only [Classical.not_forall, exists_prop] using hknown)
      rw [herror] at h
      cases h

/-! ### Stages -/

namespace Options

/-- The command is awaited from a terminal. -/
def AtTerminal (o : Options) (standardInput : StandardInput) : Prop :=
  o.source = .standardInput ∧ standardInput = .terminal

/-- From anywhere else there is an input, if only an error. -/
theorem input?_eq_none_iff {o : Options} {disk : Disk} {standardInput : StandardInput} :
    o.input? disk standardInput = none ↔ o.AtTerminal standardInput := by
  unfold input?
  split <;> simp_all [AtTerminal]

theorem draft_of_generate {o : Options} (hformat : o.format = .code) {c : Command}
    {es : List Emission} (h : o.generate c.request = .ok es) :
    o.draft c = .ok ⟨programs es, c.request, o.save.map fun dir => (dir, files es)⟩ := by
  simp [draft, hformat, h]

theorem draft_of_generate_error {o : Options} (hformat : o.format = .code) {c : Command}
    {e : EmitError} (h : o.generate c.request = .error e) :
    o.draft c = .error (.failure 3 ("Error: " ++ e.message)) := by
  simp [draft, hformat, h]

theorem draft_eq_ok {o : Options} {c : Command} {d : Draft} (htargets : o.targets ≠ [])
    (h : o.draft c = .ok d) : d.request = c.request ∧ EndsLine d.stdout := by
  cases hformat : o.format with
  | json | debug =>
    simp only [draft, hformat, Except.ok.injEq] at h
    subst h
    exact ⟨rfl, endsLine_append _ rfl⟩
  | code =>
    cases hes : o.generate c.request with
    | ok es =>
      rw [draft_of_generate hformat hes] at h
      obtain rfl := Except.ok.inj h
      obtain ⟨hne, hends⟩ := generate_eq_ok htargets hes
      exact ⟨rfl, endsLine_programs hne hends⟩
    | error e =>
      rw [draft_of_generate_error hformat hes] at h
      cases h

theorem draft_eq_error {o : Options} {c : Command} {outcome : Outcome}
    (h : o.draft c = .error outcome) : ∃ message, outcome = .failure 3 message := by
  cases hformat : o.format with
  | json | debug => simp [draft, hformat] at h
  | code =>
    cases hes : o.generate c.request with
    | ok es =>
      rw [draft_of_generate hformat hes] at h
      cases h
    | error e =>
      rw [draft_of_generate_error hformat hes] at h
      exact ⟨_, (Except.error.inj h).symm⟩

theorem compile_eq_ok {o : Options} {input : Except String String} {d : Draft}
    (h : o.compile input = .ok d) :
    ∃ text c, input = .ok text ∧ Command.parse o.limits text = .ok c ∧ o.draft c = .ok d := by
  unfold compile at h
  split at h
  · cases h
  · rename_i text
    split at h
    · cases h
    · split at h
      · cases h
      · rename_i c hc
        exact ⟨text, c, rfl, hc, h⟩

theorem compile_eq_error {o : Options} {input : Except String String} {outcome : Outcome}
    (h : o.compile input = .error outcome) :
    ∃ code message, code ≠ 0 ∧ outcome = .failure code message := by
  unfold compile at h
  split at h
  · exact ⟨1, _, by decide, (Except.error.inj h).symm⟩
  · split at h
    · exact ⟨1, _, by decide, (Except.error.inj h).symm⟩
    · split at h
      · exact ⟨2, _, by decide, (Except.error.inj h).symm⟩
      · obtain ⟨message, rfl⟩ := draft_eq_error h
        exact ⟨3, message, by decide, rfl⟩

end Options

/-- The files of a draft on a disk. -/
def Draft.store (d : Draft) (disk : Disk) : Except SystemError Unit × Disk :=
  match d.save with
  | some (folder, files) => disk.save folder files
  | none => (.ok (), disk)

section Run

variable [Idna] [Http.Wire] {arguments : List String} {o : Options}
  (h : readArguments arguments = .ok o) (hlist : o.listTargets = false)
include h hlist

theorem run_terminal {standardInput : StandardInput} (hterminal : o.AtTerminal standardInput)
    (disk : Disk) (replies : List Http.Reply) :
    run arguments disk standardInput replies = (guidance, disk) := by
  simp [run, h, hlist, Options.input?_eq_none_iff.2 hterminal]

theorem run_eq {disk : Disk} {standardInput : StandardInput} {input : Except String String}
    (hinput : o.input? disk standardInput = some input) (replies : List Http.Reply) :
    run arguments disk standardInput replies =
      match o.compile input with
      | .error outcome => (outcome, disk)
      | .ok d => (o.conclude d (d.store disk).1 replies, (d.store disk).2) := by
  simp only [run, h, hlist, hinput]
  rfl

end Run

end CurlCode.Cli
