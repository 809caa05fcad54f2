import CurlCode.Cli.Disk
import Mathlib.Data.List.Basic

/-!
What stands on a disk after folders are made and files are written: what was put last under a
path, and elsewhere what was there before.
-/
namespace CurlCode.Cli.Disk

open Text

theorem lookup_cons_eq (p q : Path) (e : DiskEntry) (entries : List (Path × DiskEntry)) :
    ((p, e) :: entries).lookup q = if q = p then some e else entries.lookup q := by
  rw [List.lookup_cons]
  by_cases h : q = p
  · simp [h]
  · simp [h, beq_false_of_ne h]

theorem lookup_filter_ne (entries : List (Path × DiskEntry)) {p q : Path} (h : q ≠ p) :
    (entries.filter fun x => x.1 ≠ p).lookup q = entries.lookup q := by
  induction entries with
  | nil => rfl
  | cons x entries ih =>
    obtain ⟨r, e⟩ := x
    by_cases hr : r = p
    · rw [List.filter_cons_of_neg (by simp [hr]), ih, lookup_cons_eq, if_neg (hr ▸ h)]
    · rw [List.filter_cons_of_pos (by simp [hr]), lookup_cons_eq, lookup_cons_eq, ih]

/-- The working folder and the root are always there. -/
def IsGiven (p : Path) : Prop := p = [] ∨ p = [""]

theorem entry?_put (d : Disk) {p : Path} (hp : ¬ IsGiven p) (q : Path) (e : DiskEntry) :
    entry? (d.put p e) q = if q = p then some e else d.entry? q := by
  by_cases hq : q = p
  · subst hq
    have hgone : (d.entries.filter fun x => x.1 ≠ q).lookup q = none := by
      rw [List.lookup_eq_none_iff]
      intro x hx
      simpa using Ne.symm (of_decide_eq_true (List.mem_filter.1 hx).2)
    have hgiven : ¬ (q = [] ∨ q = [""]) := hp
    rw [ entry?, if_neg hgiven, put, List.lookup_append, hgone, lookup_cons_eq, if_pos rfl,
      if_pos rfl, Option.none_or]
  · rw [if_neg hq, entry?, entry?, put, List.lookup_append, lookup_filter_ne _ hq, lookup_cons_eq,
      if_neg hq, List.lookup_nil, Option.or_none]

/-! ### Folders -/

theorem not_isGiven_of_entry? {d : Disk} {p : Path} (h : d.entry? p ≠ some .folder) :
    ¬ IsGiven p := fun hp => h (if_pos hp)

theorem makeFolder_eq_ok {fault : SystemError} {d d' : Disk} {p : Path}
    (h : d.makeFolder fault p = .ok d') (q : Path) :
    d'.entry? q = if q = p then some .folder else d.entry? q := by
  rw [makeFolder] at h
  split at h
  · next hfolder =>
    obtain rfl := Except.ok.inj h
    split
    · next hq => rw [hq, hfolder]
    · rfl
  · cases h
  · next hnone =>
    obtain rfl := Except.ok.inj h
    have hp : ¬ IsGiven p := not_isGiven_of_entry? (d := d) (by simp [hnone])
    exact entry?_put d hp q .folder

theorem foldlM_makeFolder {fault : SystemError} (ps : List Path) {d d' : Disk}
    (h : ps.foldlM (makeFolder fault) d = .ok d') (q : Path) :
    d'.entry? q = if q ∈ ps then some .folder else d.entry? q := by
  induction ps generalizing d with
  | nil =>
    obtain rfl := Except.ok.inj h
    simp
  | cons p ps ih =>
    rw [List.foldlM_cons] at h
    cases hfirst : d.makeFolder fault p with
    | error e => simp [hfirst, bind, Except.bind] at h
    | ok made =>
      rw [hfirst] at h
      rw [ih h, makeFolder_eq_ok hfirst]
      by_cases hq : q = p <;> by_cases hmem : q ∈ ps <;> simp [hq, hmem]

/-- A folder and the ones above it. -/
def upTo (folder : Path) : List Path := above folder ++ [folder]

theorem above_concat (folder : Path) (name : String) : above (folder ++ [name]) = upTo folder := by
  simp only [above, upTo, List.length_append, List.length_singleton, List.range_succ,
    List.map_append, List.map_singleton, List.take_left']
  congr 1
  refine List.map_congr_left fun n hn => ?_
  rw [List.take_append_of_le_length (Nat.le_of_lt (List.mem_range.1 hn))]

theorem makeFolders_eq_ok {d d' : Disk} {folder : Path} (h : d.makeFolders folder = .ok d')
    (q : Path) : d'.entry? q = if q ∈ upTo folder then some .folder else d.entry? q := by
  rw [makeFolders] at h
  cases habove : (above folder).foldlM (makeFolder .notFolder) d with
  | error e => simp [habove, bind, Except.bind] at h
  | ok made =>
    rw [habove] at h
    rw [makeFolder_eq_ok h, foldlM_makeFolder _ habove]
    by_cases hq : q = folder <;> by_cases hmem : q ∈ above folder <;> simp [upTo, hq, hmem]

theorem length_le_of_mem_upTo {folder q : Path} (h : q ∈ upTo folder) :
    q.length ≤ folder.length := by
  rw [upTo, List.mem_append, List.mem_singleton, above, List.mem_map] at h
  rcases h with ⟨n, -, rfl⟩ | rfl
  · exact List.length_take_le' n folder
  · exact Nat.le_refl _

/-- What is inside a folder is none of those above it. -/
theorem append_not_mem_upTo (folder : Path) {rest : Path} (h : rest ≠ []) :
    folder ++ rest ∉ upTo folder := by
  intro hmem
  have hlength := length_le_of_mem_upTo hmem
  have hpositive := List.length_pos_iff.2 h
  rw [List.length_append] at hlength
  omega

/-! ### Files -/

/-- The folder is there, with all folders above it. -/
def Reaches (d : Disk) (folder : Path) : Prop := ∀ q ∈ upTo folder, d.entry? q = some .folder

theorem Reaches.obstacle? {d : Disk} {folder : Path} (h : Reaches d folder) (name : String) :
    d.obstacle? (folder ++ [name]) = none := by
  rw [Disk.obstacle?, above_concat, List.findSome?_eq_none_iff]
  intro q hq
  simp [h q hq]

theorem Reaches.put {d : Disk} {folder : Path} (h : Reaches d folder) {name : String}
    (hname : ¬ IsGiven (folder ++ [name])) (e : DiskEntry) :
    Reaches (d.put (folder ++ [name]) e) folder := by
  intro q hq
  have hother : q ≠ folder ++ [name] := by
    rintro rfl
    exact append_not_mem_upTo folder (List.cons_ne_nil name []) hq
  rw [entry?_put d hname, if_neg hother, h q hq]

theorem Reaches.write {d : Disk} {folder : Path} (h : Reaches d folder) {name : String}
    (hfree : d.entry? (folder ++ [name]) ≠ some .folder) (content : List UInt8) :
    d.write (folder ++ [name]) content = .ok (d.put (folder ++ [name]) (.file content)) := by
  cases hentry : d.entry? (folder ++ [name]) with
  | none => simp only [Disk.write, h.obstacle? name, hentry]
  | some entry =>
    cases entry with
    | folder => exact absurd hentry hfree
    | file old => simp only [Disk.write, h.obstacle? name, hentry]

/-- The disk with some files put into a folder. -/
def putFiles (folder : Path) (files : List (String × String)) (d : Disk) : Disk :=
  files.foldl (fun d f => d.put (folder ++ [f.1]) (.file (utf8 f.2))) d

/-- No folder is in the place of a file. -/
def Free (d : Disk) (folder : Path) (files : List (String × String)) : Prop :=
  ∀ f ∈ files, d.entry? (folder ++ [f.1]) ≠ some .folder

theorem Reaches.writeAll {folder : Path} {files : List (String × String)} {d : Disk}
    (h : Reaches d folder) (hfree : Free d folder files) :
    d.writeAll folder files = (.ok (), d.putFiles folder files) := by
  induction files generalizing d with
  | nil => rfl
  | cons f files ih =>
    obtain ⟨name, content⟩ := f
    have hplace : d.entry? (folder ++ [name]) ≠ some .folder := hfree _ List.mem_cons_self
    have hname := not_isGiven_of_entry? hplace
    have hrest : Free (d.put (folder ++ [name]) (.file (utf8 content))) folder files := by
      intro f hf
      rw [entry?_put d hname]
      split
      · simp
      · exact hfree f (List.mem_cons_of_mem _ hf)
    simp only [Disk.writeAll, h.write hplace, ih (h.put hname _) hrest]
    rfl

theorem entry?_putFiles_other {folder : Path} {files : List (String × String)}
    (hnames : ∀ f ∈ files, ¬ IsGiven (folder ++ [f.1])) (d : Disk) {q : Path}
    (hq : ∀ f ∈ files, q ≠ folder ++ [f.1]) : entry? (d.putFiles folder files) q = d.entry? q := by
  induction files generalizing d with
  | nil => rfl
  | cons f files ih =>
    have hfirst := entry?_put d (hnames f List.mem_cons_self) q (.file (utf8 f.2))
    rw [if_neg (hq f List.mem_cons_self)] at hfirst
    rw [← hfirst]
    exact ih (fun g hg => hnames g (.tail _ hg)) _ fun g hg => hq g (.tail _ hg)

/-- Of several files with one name the last one stays; here they are all the same. -/
theorem entry?_putFiles {folder : Path} {files : List (String × String)}
    (hnames : ∀ f ∈ files, ¬ IsGiven (folder ++ [f.1]))
    (hsame : ∀ f ∈ files, ∀ g ∈ files, f.1 = g.1 → f.2 = g.2) (d : Disk)
    {f : String × String} (hf : f ∈ files) :
    entry? (d.putFiles folder files) (folder ++ [f.1]) = some (.file (utf8 f.2)) := by
  induction files generalizing d f with
  | nil => cases hf
  | cons g files ih =>
    have hnames' : ∀ f ∈ files, ¬ IsGiven (folder ++ [f.1]) := fun f hf => hnames f (.tail _ hf)
    have hlast {f : String × String} (hf : f ∈ files) :=
      ih hnames' (fun f hf g hg => hsame f (.tail _ hf) g (.tail _ hg))
        (d.put (folder ++ [g.1]) (.file (utf8 g.2))) hf
    by_cases hagain : ∃ f' ∈ files, f'.1 = f.1
    · obtain ⟨f', hf', hname⟩ := hagain
      have hentry := hlast hf'
      rw [hname, hsame f' (.tail _ hf') f hf hname] at hentry
      exact hentry
    · obtain rfl : f = g := by
        rcases List.mem_cons.1 hf with rfl | hf
        · rfl
        · exact absurd ⟨f, hf, rfl⟩ hagain
      have hother : ∀ f' ∈ files, folder ++ [f.1] ≠ folder ++ [f'.1] := by
        intro f' hf' heq
        exact hagain ⟨f', hf', by simpa using heq.symm⟩
      have hkept := entry?_putFiles_other hnames' (d.put (folder ++ [f.1]) (.file (utf8 f.2)))
        hother
      rw [entry?_put d (hnames f List.mem_cons_self), if_pos rfl] at hkept
      exact hkept

end CurlCode.Cli.Disk
