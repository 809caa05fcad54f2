import CurlCode.Cli.Arguments

/-!
Asking for the preview in front of a command line. A command line without the switch is read
the same behind it, and only the switch is added to the options (`readArguments_preview`).
-/
namespace CurlCode.Cli

theorem bind_eq_ok_iff {ε α β : Type} {x : Except ε α} {f : α → Except ε β} {b : β} :
    x >>= f = .ok b ↔ ∃ a, x = .ok a ∧ f a = .ok b := by
  cases x <;> simp [bind, Except.bind]

def Options.withPreview (o : Options) : Options := { o with execute := true }

theorem Options.put_withPreview {o o' : Options} {x : Setting} {value : String}
    (h : o.put x value = .ok o') :
    o.execute = o'.execute ∧ o.withPreview.put x value = .ok o'.withPreview := by
  unfold Options.put at h ⊢
  cases x with
  | raw | target =>
    obtain rfl := Except.ok.inj h
    exact ⟨rfl, rfl⟩
  | file | save =>
    by_cases hempty : value = ""
    · simp [hempty] at h
    · simp only [hempty, if_false, Except.ok.injEq] at h ⊢
      subst h
      exact ⟨rfl, rfl⟩
  | format =>
    cases hformat : Format.of? value with
    | none => simp [hformat] at h
    | some f =>
      simp only [hformat, Except.ok.injEq] at h ⊢
      subst h
      exact ⟨rfl, rfl⟩
  | timeout | inputBytes | headers =>
    cases hn : readNumber value with
    | error e =>
      simp only [hn] at h
      cases h
    | ok n =>
      simp only [hn] at h ⊢
      obtain rfl := Except.ok.inj h
      exact ⟨rfl, rfl⟩

namespace Scan

def withPreview (s : Scan) : Scan :=
  { s with options := s.options.withPreview, given := .switch .execute :: s.given }

/-- As long as the preview is not asked for, a step is the same behind the switch. -/
def Indifferent (f : Scan → Except Stop Scan) : Prop :=
  ∀ s t, f s = .ok t → t.options.execute = false →
    s.options.execute = false ∧ f s.withPreview = .ok t.withPreview

theorem Indifferent.bind {f g : Scan → Except Stop Scan} (hf : Indifferent f)
    (hg : Indifferent g) : Indifferent fun s => f s >>= g := by
  intro s t h hplain
  obtain ⟨u, hs, ht⟩ := bind_eq_ok_iff.1 h
  obtain ⟨hu, hg'⟩ := hg u t ht hplain
  obtain ⟨hs', hf'⟩ := hf s u hs hu
  exact ⟨hs', bind_eq_ok_iff.2 ⟨_, hf', hg'⟩⟩

theorem Indifferent.ok {f : Scan → Scan} (hplain : ∀ s, (f s).options.execute = s.options.execute)
    (hf : ∀ s, f s.withPreview = (f s).withPreview) : Indifferent fun s => .ok (f s) := by
  intro s t h ht
  obtain rfl := Except.ok.inj h
  exact ⟨(hplain s).symm.trans ht, congrArg Except.ok (hf s)⟩

theorem Indifferent.error (e : Stop) : Indifferent fun _ => .error e := by
  intro s t h
  cases h

theorem Indifferent.ite {p : Scan → Prop} [DecidablePred p] {f g : Scan → Except Stop Scan}
    (hp : ∀ s, p s.withPreview ↔ p s) (hf : Indifferent f) (hg : Indifferent g) :
    Indifferent fun s => if p s then f s else g s := by
  intro s t h hplain
  simp only [hp] at h ⊢
  split at h
  · rw [if_pos ‹_›]
    exact hf s t h hplain
  · rw [if_neg ‹_›]
    exact hg s t h hplain

theorem setting_mem_withPreview (x : Setting) (s : Scan) :
    .setting x ∈ s.withPreview.given ↔ .setting x ∈ s.given := by
  simp [withPreview]

theorem indifferent_store (x : Setting) (value : String) : Indifferent (store x value) := by
  refine .ite (fun s => and_congr_right fun _ => setting_mem_withPreview x s) (.error _) ?_
  intro s t h hplain
  simp only at h ⊢
  cases hput : s.options.put x value with
  | error e => simp [hput] at h
  | ok o =>
    simp only [hput, Except.ok.injEq] at h
    subst h
    obtain ⟨hsame, hput'⟩ := Options.put_withPreview hput
    have hboth : s.withPreview.options = s.options.withPreview := rfl
    simp only [hboth, hput']
    exact ⟨hsame.trans hplain, rfl⟩

theorem indifferent_settle : Indifferent settle := by
  intro s t h hplain
  unfold settle at h ⊢
  cases hpending : s.pending with
  | none =>
    rw [hpending] at h
    obtain rfl := Except.ok.inj h
    exact ⟨hplain, by simp [withPreview, hpending]⟩
  | some p =>
    obtain ⟨x, value⟩ := p
    cases value with
    | none => simp [hpending] at h
    | some value =>
      simp only [hpending] at h
      have hkept : s.withPreview.pending = some (x, some value) := hpending
      rw [hkept]
      exact indifferent_store x value _ t h hplain

/-- The switch itself may be met only once, so behind the first it is not met again. -/
theorem indifferent_turnOn (full : Bool) (w : Switch) : Indifferent (turnOn full w) := by
  refine indifferent_settle.bind ?_
  intro s t h hplain
  cases w with
  | help | version => cases h
  | execute =>
    simp only at h
    split at h
    · cases h
    · obtain rfl := Except.ok.inj h
      cases hplain
  | all | pretty | listTargets | noRedirects =>
    simp only at h ⊢
    split at h
    · cases h
    · rename_i hfresh
      obtain rfl := Except.ok.inj h
      refine ⟨hplain, ?_⟩
      rw [if_neg (by simpa [withPreview] using hfresh)]
      rfl

theorem indifferent_begin (x : Setting) (attached : Option String) :
    Indifferent (begin x attached) := by
  refine indifferent_settle.bind ?_
  cases attached with
  | some value => exact indifferent_store x value
  | none => exact .ok (fun _ => rfl) (fun _ => rfl)

theorem indifferent_readLong (body : List Char) : Indifferent (readLong body) := by
  intro s t h hplain
  unfold readLong at h ⊢
  split at h
  rename_i name value _
  cases harg : Argument.ofLong? name with
  | none => simp [harg] at h
  | some a =>
    cases a with
    | setting x =>
      simp only [harg] at h ⊢
      exact indifferent_begin x value s t h hplain
    | switch w =>
      cases value with
      | some v => simp [harg] at h
      | none =>
        simp only [harg] at h ⊢
        exact indifferent_turnOn true w s t h hplain

theorem indifferent_readShort (cs : List Char) : Indifferent (readShort cs) := by
  induction cs with
  | nil => exact .ok (fun _ => rfl) (fun _ => rfl)
  | cons c rest ih =>
    intro s t h hplain
    unfold readShort at h ⊢
    cases harg : Argument.ofShort? c with
    | none => simp [harg] at h
    | some a =>
      cases a with
      | switch w =>
        simp only [harg] at h ⊢
        exact (indifferent_turnOn false w).bind ih s t h hplain
      | setting x =>
        -- What is left of the argument is the value, wherever it is cut.
        simp only [harg] at h ⊢
        split at h <;> exact indifferent_begin x _ s t h hplain

theorem hasFile_withPreview (s : Scan) : s.withPreview.hasFile = s.hasFile := by
  have hgiven := setting_mem_withPreview .file s
  have hpending : s.withPreview.pending = s.pending := rfl
  simp only [hasFile, hgiven, hpending]

theorem indifferent_readFile (argument : String) : Indifferent (readFile argument) := by
  refine .ite (fun s => by rw [hasFile_withPreview]) (.error _) ?_
  exact indifferent_settle.bind
    (.ok (f := fun s => { s with pending := some (.file, some argument) })
      (fun _ => rfl) (fun _ => rfl))

theorem indifferent_read (argument : String) : Indifferent fun s => s.read argument := by
  refine .ite (fun _ => Iff.rfl) (indifferent_readFile argument) ?_
  intro s t h hplain
  have hpending : s.withPreview.pending = s.pending := rfl
  simp only [hpending] at h ⊢
  split at h
  · exact Indifferent.ok (f := fun s => { s with filesOnly := true })
      (fun _ => rfl) (fun _ => rfl) s t h hplain
  · exact indifferent_readLong _ s t h hplain
  · exact indifferent_readShort _ s t h hplain
  · split at h
    · rename_i x _
      exact Indifferent.ok (f := fun s => { s with pending := some (x, some argument) })
        (fun _ => rfl) (fun _ => rfl) s t h hplain
    · exact indifferent_readFile argument s t h hplain

theorem indifferent_foldlM (arguments : List String) :
    Indifferent fun s => arguments.foldlM read s := by
  induction arguments with
  | nil => exact .ok (fun _ => rfl) (fun _ => rfl)
  | cons a arguments ih =>
    simp only [List.foldlM_cons]
    exact (indifferent_read a).bind ih

theorem conflict?_withPreview (s : Scan) : s.withPreview.conflict? = s.conflict? := by
  simp [conflict?, withPreview]

theorem finish_eq_ok_iff {s : Scan} {o : Options} :
    s.finish = .ok o ↔ ∃ t, s.settle = .ok t ∧ t.conflict? = none ∧
      (if t.options.targets = [] then { t.options with targets := ["python"] } else t.options)
        = o := by
  rw [finish, bind_eq_ok_iff]
  refine exists_congr fun t => and_congr_right fun _ => ?_
  cases t.conflict? with
  | none => exact ⟨fun h => ⟨rfl, Except.ok.inj h⟩, fun h => congrArg Except.ok h.2⟩
  | some e => simp [throw, throwThe, MonadExceptOf.throw]

theorem finish_withPreview {s : Scan} {o : Options} (h : s.finish = .ok o)
    (hplain : o.execute = false) :
    s.options.execute = false ∧ s.withPreview.finish = .ok o.withPreview := by
  obtain ⟨t, hs, hnone, rfl⟩ := finish_eq_ok_iff.1 h
  have ht : t.options.execute = false := by
    split at hplain <;> exact hplain
  obtain ⟨hplain', hs'⟩ := indifferent_settle s t hs ht
  refine ⟨hplain', finish_eq_ok_iff.2 ⟨_, hs', t.conflict?_withPreview.trans hnone, ?_⟩⟩
  by_cases hdefault : t.options.targets = []
  · simp [withPreview, Options.withPreview, hdefault]
  · simp [withPreview, Options.withPreview, hdefault]

end Scan

theorem readArguments_eq_ok_iff {arguments : List String} {o : Options} :
    readArguments arguments = .ok o ↔
      ∃ s, arguments.foldlM Scan.read .start = .ok s ∧ s.finish = .ok o := bind_eq_ok_iff

/-- Where no target is asked for, there is a default. -/
theorem targets_ne_nil {arguments : List String} {o : Options}
    (h : readArguments arguments = .ok o) : o.targets ≠ [] := by
  obtain ⟨s, -, hfinish⟩ := readArguments_eq_ok_iff.1 h
  obtain ⟨t, -, -, rfl⟩ := Scan.finish_eq_ok_iff.1 hfinish
  split
  · exact List.cons_ne_nil _ _
  · assumption

theorem readArguments_preview {arguments : List String} {o : Options}
    (h : readArguments arguments = .ok o) (hplain : o.execute = false) :
    readArguments ("--execute" :: arguments) = .ok o.withPreview := by
  have hfirst : Scan.start.read "--execute" = .ok Scan.start.withPreview := rfl
  obtain ⟨s, hs, hfinish⟩ := readArguments_eq_ok_iff.1 h
  obtain ⟨hplain', hfinish'⟩ := Scan.finish_withPreview hfinish hplain
  obtain ⟨-, hs'⟩ := Scan.indifferent_foldlM arguments _ _ hs hplain'
  -- In front, the switch finds nothing pending, and the rest is read as without it.
  refine readArguments_eq_ok_iff.2 ⟨_, ?_, hfinish'⟩
  rw [List.foldlM_cons]
  exact bind_eq_ok_iff.2 ⟨_, hfirst, hs'⟩

end CurlCode.Cli
