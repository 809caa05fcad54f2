import CurlCode.Proofs.Cli.Disk
import CurlCode.Proofs.Cli.Selection
import CurlCode.Proofs.Registry

/-!
Saving programs. Each target that is asked for has a file of its own, however often it is named
and whatever extensions the targets share, and a folder in which nothing was before holds these
files and nothing else (`run_saves`).
-/
namespace CurlCode.Cli

open Text

/-! ### Programs and their files -/

/-- The targets that are asked for, as often as they are named. -/
def Options.requested (o : Options) : List String :=
  if o.all then Target.builtin.map Target.id else o.targets

theorem programOf_id {t : Target} (h : t ∈ Target.builtin) (r : Request) :
    programOf r t.id = t.run r := by
  have hnodup : (Target.builtin.map Target.id).Nodup := by decide
  have hfind := Registry.get?_of_mem hnodup h
  rw [Registry.get?] at hfind
  rw [programOf, hfind]

theorem generate_requested {o : Options}
    (hknown : ∀ id ∈ o.requested, id ∈ Target.builtin.map Target.id) (r : Request) :
    o.generate r = .ok (o.requested.map (programOf r)) := by
  cases hall : o.all with
  | true =>
    have hprograms : (Target.builtin.map Target.id).map (programOf r) =
        Target.builtin.map fun t => t.run r := by
      rw [List.map_map]
      exact List.map_congr_left fun t ht => programOf_id ht r
    rw [Options.generate, if_pos hall, Options.requested, if_pos hall, hprograms]
    rfl
  | false =>
    have htargets : o.requested = o.targets := if_neg (by simp [hall])
    rw [htargets] at hknown ⊢
    exact generate_known hall hknown r

/-- The extension of the files for a built-in target. -/
def extensionOf (id : String) : String :=
  ((Target.builtin.find? fun t => t.id = id).bind Target.extension).getD ""

/-- The first part of a file's name. The id is left out where the extension tells enough. -/
def stem (ids : List String) (id : String) : String :=
  if (ids.filter fun other => extensionOf other = extensionOf id).length = 1 then "request"
  else "request-" ++ id

/-- The name of the file for one of some targets. -/
def savedName (ids : List String) (id : String) : String :=
  stem ids id ++ "." ++ extensionOf id

theorem savedName_ne_empty (ids : List String) (id : String) : savedName ids id ≠ "" := by
  intro h
  have hlist := congrArg String.toList h
  simp [savedName] at hlist

theorem extension_programOf {id : String} (h : id ∈ Target.builtin.map Target.id) (r : Request) :
    (programOf r id).extension = some (extensionOf id) := by
  have hsome : ∀ t ∈ Target.builtin, t.extension = some (t.extension.getD "") := by decide
  obtain ⟨t, ht, hfind⟩ := find?_of_mem h
  rw [programOf, extensionOf, hfind]
  exact hsome t ht

section Known

variable {ids : List String} (hknown : ∀ id ∈ ids, id ∈ Target.builtin.map Target.id)
include hknown

theorem files_programOf (r : Request) :
    files (ids.map (programOf r)) = ids.map fun id => (savedName ids id, (programOf r id).code) := by
  rw [files, List.map_map]
  refine List.map_congr_left fun id hid => ?_
  have hextension {other : String} (hother : other ∈ ids) :=
    extension_programOf (hknown other hother) r
  have hsharing : ((ids.map (programOf r)).filter fun f =>
        f.extension = some (extensionOf id)).length =
      (ids.filter fun other => extensionOf other = extensionOf id).length := by
    rw [List.filter_map, List.length_map]
    refine congrArg List.length (List.filter_congr fun other hother => ?_)
    simp [hextension hother]
  have hself : id ∈ ids.filter fun other => extensionOf other = extensionOf id := by simp [hid]
  have hpositive := List.length_pos_of_mem hself
  simp only [Function.comp_apply, target_programOf, Emission.fileName, hextension hid, hsharing,
    savedName, stem]
  by_cases halone : (ids.filter fun other => extensionOf other = extensionOf id).length = 1
  · rw [if_neg (by omega), if_pos halone]
  · rw [if_pos (by omega), if_neg halone]

theorem not_mem_stem {id : String} (hid : id ∈ ids) : '.' ∉ (stem ids id).toList := by
  have hdotless : ∀ id ∈ Target.builtin.map Target.id, '.' ∉ id.toList := by decide
  rw [stem]
  split
  · decide
  · rw [String.toList_append, List.mem_append, not_or]
    exact ⟨by decide, hdotless id (hknown id hid)⟩

/-- Targets that share an extension do not share a name, with or without their ids in it. -/
theorem savedName_inj {id id' : String} (hid : id ∈ ids) (hid' : id' ∈ ids)
    (h : savedName ids id = savedName ids id') : id = id' := by
  have hcut {i : String} (hi : i ∈ ids) : cut? '.' (savedName ids i).toList =
      some ((stem ids i).toList, (extensionOf i).toList) := by
    have hname : (savedName ids i).toList = (stem ids i).toList ++ '.' :: (extensionOf i).toList := by
      simp [savedName]
    rw [hname, cut?_append (not_mem_stem hknown hi)]
  have hparts := hcut hid
  rw [h, hcut hid', Option.some.injEq, Prod.mk.injEq, String.toList_inj, String.toList_inj]
    at hparts
  obtain ⟨hstem, hextension⟩ := hparts
  rw [stem, stem, hextension] at hstem
  by_cases halone : (ids.filter fun other => extensionOf other = extensionOf id).length = 1
  · obtain ⟨only, honly⟩ := List.length_eq_one_iff.1 halone
    have hmem : id ∈ [only] := honly ▸ by simp [hid]
    have hmem' : id' ∈ [only] := honly ▸ by simp [hid', hextension]
    rw [List.mem_singleton.1 hmem, List.mem_singleton.1 hmem']
  · rw [if_neg halone, if_neg halone] at hstem
    exact (String.append_right_inj "request-").1 hstem.symm

end Known

/-! ### The folder -/

/-- Nothing is in the folder, whether it is there or not. -/
def Disk.Vacant (d : Disk) (folder : Path) : Prop :=
  ∀ name rest, name ≠ "" → d.entry? (folder ++ name :: rest) = none

theorem Disk.not_isGiven {folder : Path} {name : String} (h : name ≠ "") :
    ¬ IsGiven (folder ++ [name]) := by
  rintro (hempty | hroot)
  · simp at hempty
  · have hlast := congrArg List.getLast? hroot
    simp [h] at hlast

theorem Disk.Vacant.made {d made : Disk} {folder : Path} (h : d.Vacant folder)
    (hmade : d.makeFolders folder = .ok made) : made.Vacant folder := by
  intro name rest hname
  rw [makeFolders_eq_ok hmade, if_neg (append_not_mem_upTo _ (List.cons_ne_nil _ _)),
    h name rest hname]

/-- Once a vacant folder is made, nothing is in the way of the files. -/
theorem Disk.save_vacant {d : Disk} {folder : String} (hvacant : d.Vacant (.of folder))
    {files : List (String × String)} (hnames : ∀ f ∈ files, f.1 ≠ "") :
    d.save folder files = match d.makeFolders (.of folder) with
      | .ok made => (.ok (), made.putFiles (.of folder) files)
      | .error e => (.error e, d) := by
  rw [save]
  cases hmade : d.makeFolders (.of folder) with
  | error e => rfl
  | ok made =>
    have hreaches : Reaches made (.of folder) := fun q hq => by
      rw [makeFolders_eq_ok hmade, if_pos hq]
    have hfree : Free made (.of folder) files := by
      intro f hf
      rw [hvacant.made hmade _ _ (hnames f hf)]
      simp
    exact hreaches.writeAll hfree

/-- A folder with a file for each of some targets and nothing else in it. -/
structure Saved (r : Request) (ids : List String) (folder : Path) (disk : Disk) : Prop where
  /-- Whatever is in the folder is such a file, under its name and with its program. -/
  entries : ∀ name ≠ "", ∀ rest entry,
    disk.entry? (folder ++ name :: rest) = some entry ↔ rest = [] ∧
      ∃ id ∈ ids, ∃ e, emit r id = .ok e ∧ name = savedName ids id ∧
        entry = .file (utf8 e.code)
  /-- So there is one file for each target. -/
  distinct : ∀ id ∈ ids, ∀ id' ∈ ids, savedName ids id = savedName ids id' → id = id'

theorem name_ne_empty_of_mem_files {r : Request} {ids : List String}
    (hknown : ∀ id ∈ ids, id ∈ Target.builtin.map Target.id) :
    ∀ f ∈ files (ids.map (programOf r)), f.1 ≠ "" := by
  rw [files_programOf hknown r]
  intro f hf
  obtain ⟨id, -, rfl⟩ := List.mem_map.1 hf
  exact savedName_ne_empty ids id

theorem saved_putFiles {r : Request} {ids : List String} {folder : Path} {disk : Disk}
    (hknown : ∀ id ∈ ids, id ∈ Target.builtin.map Target.id) (hvacant : disk.Vacant folder) :
    Saved r ids folder (disk.putFiles folder (files (ids.map (programOf r)))) where
  distinct id hid id' hid' := savedName_inj hknown hid hid'
  entries name hname rest entry := by
    have hfiles := files_programOf hknown r
    have hgiven : ∀ f ∈ files (ids.map (programOf r)), ¬ Disk.IsGiven (folder ++ [f.1]) :=
      fun f hf => Disk.not_isGiven (name_ne_empty_of_mem_files hknown f hf)
    have hsame : ∀ f ∈ files (ids.map (programOf r)), ∀ g ∈ files (ids.map (programOf r)),
        f.1 = g.1 → f.2 = g.2 := by
      rw [hfiles]
      intro f hf g hg hfg
      obtain ⟨id, hid, rfl⟩ := List.mem_map.1 hf
      obtain ⟨id', hid', rfl⟩ := List.mem_map.1 hg
      obtain rfl := savedName_inj hknown hid hid' hfg
      rfl
    have hplaced {id : String} (hid : id ∈ ids) :=
      Disk.entry?_putFiles hgiven hsame disk
        (hfiles ▸ List.mem_map_of_mem (f := fun id => (savedName ids id, (programOf r id).code)) hid)
    constructor
    · intro hentry
      by_cases hfile : ∃ f ∈ files (ids.map (programOf r)), folder ++ name :: rest = folder ++ [f.1]
      · obtain ⟨f, hf, hpath⟩ := hfile
        rw [hfiles] at hf
        obtain ⟨id, hid, rfl⟩ := List.mem_map.1 hf
        obtain ⟨rfl, rfl⟩ := List.cons.inj (List.append_cancel_left hpath)
        rw [hplaced hid] at hentry
        exact ⟨rfl, id, hid, _, emit_of_mem (hknown id hid) r, rfl, (Option.some.inj hentry).symm⟩
      · have hother : ∀ f ∈ files (ids.map (programOf r)),
            folder ++ name :: rest ≠ folder ++ [f.1] := fun f hf hpath => hfile ⟨f, hf, hpath⟩
        rw [Disk.entry?_putFiles_other hgiven disk hother, hvacant name rest hname] at hentry
        cases hentry
    · rintro ⟨rfl, id, hid, e, hemit, rfl, rfl⟩
      rw [emit_of_mem (hknown id hid)] at hemit
      obtain rfl := Except.ok.inj hemit
      exact hplaced hid

/-! ### The run -/

/-- Past the draft, only files that are not saved give this code. -/
theorem code_conclude [Idna] [Http.Wire] (o : Options) (d : Draft) (saved : Except SystemError Unit)
    (replies : List Http.Reply) :
    (o.conclude d saved replies).code ≠ 1 ↔ ∃ u, saved = .ok u := by
  cases saved with
  | error e => simp [Options.conclude]
  | ok u =>
    refine ⟨fun _ => ⟨u, rfl⟩, fun _ => ?_⟩
    cases hexecute : o.execute with
    | false =>
      rw [conclude_plain hexecute]
      exact Nat.zero_ne_one
    | true =>
      have hpreviewed := previewed_conclude hexecute d replies
      generalize o.conclude d (.ok ()) replies = outcome at hpreviewed ⊢
      cases hpreviewed with
      | response r _ => exact Nat.zero_ne_one
      | failure e _ => simp

/-- A run that comes to saving its programs into a vacant folder succeeds in that if the folder
can be made, and then the folder holds one file for each target. -/
theorem run_saves [Idna] [Http.Wire] {arguments : List String} {o : Options}
    (h : readArguments arguments = .ok o) (hlist : o.listTargets = false)
    (hformat : o.format = .code)
    (hknown : ∀ id ∈ o.requested, id ∈ Target.builtin.map Target.id) {folder : String}
    (hsave : o.save = some folder) {disk : Disk} (hvacant : disk.Vacant (.of folder))
    (standardInput : StandardInput) {text : String} {c : Command}
    (hinput : o.input? disk standardInput = some (.ok text))
    (hparse : Command.parse o.limits text = .ok c) (replies : List Http.Reply) :
    ((run arguments disk standardInput replies).1.code ≠ 1 ↔
      ∃ made, disk.makeFolders (.of folder) = .ok made) ∧
    ((run arguments disk standardInput replies).1.code ≠ 1 →
      Saved c.request o.requested (.of folder) (run arguments disk standardInput replies).2) := by
  have hdraft := Options.draft_of_generate hformat (generate_requested hknown c.request)
  have hsaved := Disk.save_vacant hvacant (name_ne_empty_of_mem_files (r := c.request) hknown)
  rw [run_eq h hlist hinput, compile_of_parse hparse, hdraft]
  simp only [Draft.store, hsave, Option.map_some, code_conclude, hsaved]
  cases hmade : disk.makeFolders (.of folder) with
  | error e => simp
  | ok made =>
    simp only [Except.ok.injEq, exists_eq']
    exact ⟨⟨fun _ => trivial, fun _ => ⟨(), trivial⟩⟩,
      fun _ => saved_putFiles hknown (hvacant.made hmade)⟩

/-- Two targets of one extension and a third one twice, saved into a folder that is not there. -/
theorem run_saves_repeated :
    let arguments := ["--raw", "curl http://h", "-taxios", "-tgo", "-tphp", "-tjavascript", "-tgo",
      "--save", "a/out"]
    let o : Options :=
      { raw := some "curl http://h", targets := ["axios", "go", "php", "javascript", "go"],
        save := some "a/out" }
    let c : Command := ⟨⟨"GET", "http://h", [], none⟩, []⟩
    readArguments arguments = .ok o ∧ Command.parse o.limits "curl http://h" = .ok c ∧
    o.requested.map (savedName o.requested) = ["request-axios.js", "request-go.go", "request.php",
      "request-javascript.js", "request-go.go"] ∧
    (run arguments .empty (.stream []) []).1.code ≠ 1 ∧
    Saved c.request o.requested ["a", "out"] (run arguments .empty (.stream []) []).2 := by
  intro arguments o c
  have h : readArguments arguments = .ok o := rfl
  have hparse : Command.parse o.limits "curl http://h" = .ok c := rfl
  have hvacant : Disk.empty.Vacant (.of "a/out") := by
    intro name rest hname
    rfl
  have hmade : ∃ made, Disk.empty.makeFolders (.of "a/out") = .ok made := ⟨_, rfl⟩
  have hrun := run_saves h rfl rfl (by decide) rfl hvacant (.stream []) rfl hparse []
  have hcode := hrun.1.2 hmade
  exact ⟨h, hparse, by decide +kernel, hcode, hrun.2 hcode⟩

end CurlCode.Cli
