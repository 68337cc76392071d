import AliasCheck.Command.Scope
import AliasCheck.Proofs.PathFrames
import AliasCheck.Proofs.Sessions

/-!
# Files that are made

A text can be stored at the end of a path if nothing is there and no file is in the way. The
directories that are missing are made, then the file; nothing else changes, and the text is read
again from the path.
-/

namespace AliasCheck
namespace FileTree

/-! ## Directories that are made -/

/-- The place to which names lead if each stands for itself, whether or not anything is there. -/
def destination (here names : List String) : List String := names.foldl stepTo here

/-- A tree is left with directories all along the way of names from a place. -/
structure Opens (t t' : FileTree) (here names : List String) : Prop where
  grows : t.Grows t'
  leads : locate t' here names = .ok (destination here names)
  directory : ∃ entries, get? (destination here names) t' = some (directory entries)
  named : ∀ name ∈ destination here names, IsName name
  vacant : ∀ place, get? place t = none →
    (∀ front, front <+: names → destination here front ≠ place) → get? place t' = none

section Opens

variable {t t' : FileTree} {here next place names : List String} {name : String}
  {entries : List (String × FileTree)}

/-- The first name on the way leads from one place to the next. -/
theorem Opens.cons (h : t.Opens t' next names) (hstep : stepTo here name = next)
    (hlocate : ∀ names, locate t' here (name :: names) = locate t' next names) :
    t.Opens t' here (name :: names) := by
  have hdestination : ∀ names, destination here (name :: names) = destination next names := by
    intro names
    rw [← hstep]
    rfl
  constructor
  · exact h.grows
  · rw [hdestination, hlocate]
    exact h.leads
  · rw [hdestination]
    exact h.directory
  · rw [hdestination]
    exact h.named
  · intro place hplace hfronts
    refine h.vacant place hplace fun front hfront => ?_
    rw [← hdestination]
    exact hfronts _ (List.cons_prefix_cons.mpr ⟨rfl, hfront⟩)

/-- Making a directory where there was nothing puts no file anywhere. -/
theorem file_of_put_directory {text : Option String} (h : t.HasRoom here name)
    (hplace : get? place (put (directory []) (here ++ [name]) t) = some (file text)) :
    get? place t = some (file text) := by
  cases hold : get? place t with
  | none =>
    obtain ⟨rest, -, hrest⟩ := get?_put_new h hold hplace
    cases rest <;> cases hrest
  | some u =>
    rcases get?_put_of_room (directory []) h hold with hsame | ⟨rest, -, hroom, hput⟩
    · rw [← hsame, hplace]
    · obtain ⟨_, entries, -, hdirectory, -⟩ := hroom.exists_put (directory [])
      rw [hdirectory] at hput
      cases hput.symm.trans hplace

/-- The directory at the beginning of the way may have been made first. -/
theorem Opens.of_put (h : (put (.directory []) (here ++ [name]) t).Opens t' (here ++ [name]) names)
    (hadds : t.Adds (put (.directory []) (here ++ [name]) t) here name) :
    t.Opens t' (here ++ [name]) names := by
  refine ⟨.head ⟨here, name, hadds⟩ h.grows, h.leads, h.directory, h.named, ?_⟩
  intro place hplace hapart
  refine h.vacant place ?_ hapart
  cases hput : get? place (put (.directory []) (here ++ [name]) t) with
  | none => rfl
  | some u =>
    obtain ⟨rest, rfl, hrest⟩ := get?_put_new hadds.room hplace hput
    cases rest with
    | nil => exact absurd rfl (hapart [] List.nil_prefix)
    | cons other rest => cases hrest

/-- The directories that are missing on the way of names can be made if no file is in the way. -/
theorem exists_addDirectories (hhere : get? here t = some (directory entries))
    (hseat : ∀ name ∈ here, IsName name) (hnames : ∀ name ∈ names, name ≠ "" ∧ '/' ∉ name.toList)
    (hpass : ∀ front, front <+: names → ∀ text,
      get? (destination here front) t ≠ some (file text)) (added : Bool) :
    ∃ t', addDirectories added t here (names.filter (· ≠ selfName)) = (t', none) ∧
      t.Opens t' here names := by
  induction names generalizing t here entries added with
  | nil =>
    refine ⟨t, rfl, .refl, rfl, ⟨entries, hhere⟩, hseat, ?_⟩
    exact fun place hplace _ => hplace
  | cons name names ih =>
    obtain ⟨hname, hmore⟩ := List.forall_mem_cons.mp hnames
    have hfronts : ∀ front, front <+: names → ∀ text,
        get? (destination (stepTo here name) front) t ≠ some (file text) :=
      fun front hfront => hpass (name :: front) (List.cons_prefix_cons.mpr ⟨rfl, hfront⟩)
    by_cases hself : name = selfName
    · have hstep : stepTo here name = here := by rw [stepTo, if_pos hself]
      rw [hstep] at hfronts
      obtain ⟨t', hadd, hopens⟩ := ih hhere hseat hmore hfronts added
      obtain ⟨entries', hhere'⟩ := hopens.grows.keeps.directory here entries hhere
      refine ⟨t', ?_, hopens.cons hstep fun names => ?_⟩
      · rw [List.filter_cons_of_neg (by simpa using hself)]
        exact hadd
      · rw [locate_cons hhere', if_pos hself]
    rw [List.filter_cons_of_pos (by simpa using hself), addDirectories, if_neg hself]
    by_cases hparent : name = parentName
    · have hstep : stepTo here name = here.dropLast := by
        rw [stepTo, if_neg hself, if_pos hparent]
      obtain ⟨above, habove⟩ := exists_directory_dropLast hhere
      rw [hstep] at hfronts
      obtain ⟨t', hadd, hopens⟩ := ih habove
        (fun name hmem => hseat name (List.dropLast_subset here hmem)) hmore hfronts added
      obtain ⟨entries', hhere'⟩ := hopens.grows.keeps.directory here entries hhere
      refine ⟨t', ?_, hopens.cons hstep fun names => ?_⟩
      · rw [if_pos hparent]
        exact hadd
      · rw [locate_cons hhere', if_neg hself, if_pos hparent]
    have hstep : stepTo here name = here ++ [name] := by
      rw [stepTo, if_neg hself, if_neg hparent]
    have hisName : IsName name := ⟨hname.1, hname.2, hself, hparent⟩
    have hseat' : ∀ other ∈ here ++ [name], IsName other :=
      List.forall_mem_append.mpr ⟨hseat, List.forall_mem_singleton.mpr hisName⟩
    rw [hstep] at hfronts
    rw [if_neg hparent]
    have hlocate : ∀ {u : FileTree}, t.Keeps u → (get? (here ++ [name]) u).isSome →
        ∀ names, locate u here (name :: names) = locate u (here ++ [name]) names := by
      intro u hkeeps hnext names
      obtain ⟨entries', hhere'⟩ := hkeeps.directory here entries hhere
      rw [locate_cons hhere', if_neg hself, if_neg hparent, if_pos hnext]
    cases hnext : get? (here ++ [name]) t with
    | some u =>
      cases u with
      | file text => exact absurd hnext (hfronts [] List.nil_prefix text)
      | directory inner =>
        obtain ⟨t', hadd, hopens⟩ := ih hnext hseat' hmore hfronts added
        refine ⟨t', ?_, hopens.cons hstep (hlocate hopens.grows.keeps ?_)⟩
        · simp only [hhere, ← get?_concat hhere, hnext]
          exact hadd
        · exact hopens.grows.keeps.isSome (by rw [hnext]; rfl)
    | none =>
      have hroom : t.HasRoom here name := ⟨entries, hhere, by rw [← get?_concat hhere, hnext]⟩
      have hadds : t.Adds (put (directory []) (here ++ [name]) t) here name :=
        ⟨hroom, hseat, hisName, _, rfl⟩
      have hmade := get?_put (directory []) (here ++ [name]) t
      obtain ⟨t', hadd, hopens⟩ := ih hmade hseat' hmore (fun front hfront text hfile =>
        hfronts front hfront text (file_of_put_directory hroom hfile)) true
      have hgrows : t.Grows t' := .head ⟨here, name, hadds⟩ hopens.grows
      refine ⟨t', ?_, (hopens.of_put hadds).cons hstep (hlocate hgrows.keeps ?_)⟩
      · simp only [hhere, ← get?_concat hhere, hnext]
        exact hadd
      · exact hopens.grows.keeps.isSome (by rw [hmade]; rfl)

end Opens

end FileTree

/-! ## Files that are stored -/

namespace Files

open FileTree (destination)

/-- The working directory is there, and it can be reached by names. -/
structure IsSeated (files : Files) : Prop where
  directory : ∃ entries, files.root.get? files.here = some (.directory entries)
  named : ∀ name ∈ files.here, IsName name

/-- A file can be made at the end of a path. The path ends in a name of its own, and it leads to a
place where nothing is. None of the places on the way holds a file, and none is that place. -/
structure Admits (files : Files) (p : Path) : Prop where
  opened : p.closed = false
  last : ∃ name, p.names.getLast? = some name ∧ name ≠ FileTree.selfName ∧
    name ≠ FileTree.parentName
  vacant : files.root.get? (destination (files.start p) p.names) = none
  passable : ∀ front, front <+: p.names.dropLast → ∀ text,
    files.root.get? (destination (files.start p) front) ≠ some (.file text)
  apart : ∀ front, front <+: p.names.dropLast →
    destination (files.start p) front ≠ destination (files.start p) p.names

section Store

variable {files : Files} {p : Path} {path : String}

theorem IsSeated.isSome (h : files.IsSeated) : (files.root.get? files.here).isSome := by
  obtain ⟨entries, hentries⟩ := h.directory
  rw [hentries]
  rfl

theorem IsSeated.start (h : files.IsSeated) (p : Path) :
    (∃ entries, files.root.get? (files.start p) = some (.directory entries)) ∧
      ∀ name ∈ files.start p, IsName name := by
  obtain ⟨entries, hentries⟩ := h.directory
  rw [Files.start]
  split
  · exact ⟨FileTree.exists_directory_root hentries, List.forall_mem_nil _⟩
  · exact ⟨⟨entries, hentries⟩, h.named⟩

/-- The files after a text was written under a name at a place. -/
def withFile (files : Files) (place : List String) (name text : String) : Files :=
  { files with root := FileTree.put (.file (some text)) (place ++ [name]) files.root }

section Write

variable {place parents : List String} {name : String} {entries : List (String × FileTree)}
  (hp : Path.ofString? path = some p) (hopened : p.closed = false)
  (hnames : p.names = parents ++ [name]) (hname : IsName name)
  (hlocate : files.root.locate (files.start p) parents = .ok place)
  (hplace : files.root.get? place = some (.directory entries))
  (hfree : Table.get? name entries = none) (text : String)

include hp hopened hnames hname hlocate hplace hfree

theorem write_eq_ok : files.write path text = .ok (files.withFile place name text) := by
  have hlast : p.names.getLast? = some name := by rw [hnames, List.getLast?_concat]
  have hdropped : p.names.dropLast = parents := by rw [hnames, List.dropLast_concat]
  have hopen : (p.closed || name = FileTree.selfName || name = FileTree.parentName
      || (Table.get? name entries).any FileTree.isDirectory) = false := by
    rw [hopened, hfree, decide_eq_false hname.ne_self, decide_eq_false hname.ne_parent]
    rfl
  simp only [write, placeToWrite, hp, hlast, hdropped, hlocate, hplace, hopen, bind, Except.bind,
    pure, Except.pure, Bool.false_eq_true, if_false, withFile]

theorem read_withFile : (files.withFile place name text).read path = .ok text := by
  have hroom : files.root.HasRoom place name := ⟨entries, hplace, hfree⟩
  have hkeeps : files.root.Keeps (files.withFile place name text).root := hroom.keeps _
  have hput : (files.withFile place name text).root.get? (place ++ [name])
      = some (.file (some text)) := FileTree.get?_put _ _ _
  obtain ⟨entries', hplace'⟩ := hkeeps.directory place entries hplace
  have hstep : (files.withFile place name text).root.locate place [name]
      = .ok (place ++ [name]) := by
    rw [FileTree.locate_cons hplace', if_neg hname.ne_self, if_neg hname.ne_parent, hput]
    rfl
  have hleads : (files.withFile place name text).root.locate
      ((files.withFile place name text).start p) p.names = .ok (place ++ [name]) := by
    have hparents : (files.withFile place name text).root.locate
        ((files.withFile place name text).start p) parents = .ok place :=
      hkeeps.locate_eq_ok hlocate
    rw [hnames, FileTree.locate_append, hparents]
    exact hstep
  have hfind : (files.withFile place name text).find path = .ok (.file (some text)) := by
    simp only [find, hp, hleads, hput, hopened, bind, Except.bind, Bool.false_eq_true, if_false]
  rw [read, hfind]
  rfl

end Write

/-- A text is stored where there is room for it and can be read there. -/
theorem exists_store (hseated : files.IsSeated) (hp : Path.ofString? path = some p)
    (hadmits : files.Admits p) (text : String) :
    ∃ files', (Command.store path text).run ⟨"", "", files⟩ = .ok () ⟨"", "", files'⟩ ∧
      files'.here = files.here ∧ files.root.Grows files'.root ∧ files'.read path = .ok text := by
  obtain ⟨⟨entries, hstart⟩, hnamed⟩ := hseated.start p
  obtain ⟨hopened, ⟨name, hlast, hself, hparent⟩, hvacant, hpassable, hapart⟩ := hadmits
  obtain ⟨parents, hnames⟩ := List.getLast?_eq_some_iff.mp hlast
  have hplain : ∀ other ∈ parents ++ [name], other ≠ "" ∧ '/' ∉ other.toList := by
    have hpath := Path.ofString?_eq_some (Path.ofString?_of_eq_some hp)
    cases hp.symm.trans hpath
    rw [← hnames]
    exact fun other hother => Path.of_mem_namesOf hother
  obtain ⟨hparents, hrest⟩ := List.forall_mem_append.mp hplain
  obtain ⟨hempty, hslash⟩ := hrest name List.mem_cons_self
  have hname : IsName name := ⟨hempty, hslash, hself, hparent⟩
  have hplace : destination (files.start p) (parents ++ [name])
      = destination (files.start p) parents ++ [name] := by
    rw [destination, List.foldl_append]
    show stepTo _ name = _
    rw [stepTo, if_neg hself, if_neg hparent]
    rfl
  rw [hnames, List.dropLast_concat] at hpassable hapart
  rw [hnames, hplace] at hvacant
  rw [hplace] at hapart
  obtain ⟨made, hmade, hopens⟩ :=
    FileTree.exists_addDirectories hstart hnamed hparents hpassable false
  have hadd : files.addParents path = ({ files with root := made }, none) := by
    have hdirectories : (p.names.filter (· ≠ FileTree.selfName)).dropLast
        = parents.filter (· ≠ FileTree.selfName) := by
      rw [hnames, List.filter_append, List.filter_cons_of_pos (by simpa using hself),
        List.filter_nil, List.dropLast_concat]
    simp only [addParents, hp, hdirectories, hmade]
  obtain ⟨inner, hinner⟩ := hopens.directory
  have hfree : Table.get? name inner = none := by
    rw [← FileTree.get?_concat hinner]
    exact hopens.vacant _ hvacant hapart
  have hwrite := @write_eq_ok { files with root := made } p path _ parents name inner hp hopened
    hnames hname hopens.leads hinner hfree text
  have hread := @read_withFile { files with root := made } p path _ parents name inner hp hopened
    hnames hname hopens.leads hinner hfree text
  have hadds : made.Adds _ (destination (files.start p) parents) name :=
    ⟨⟨inner, hinner, hfree⟩, hopens.named, hname, .file (some text), rfl⟩
  refine ⟨({ files with root := made } : Files).withFile (destination (files.start p) parents) name
    text, ?_, rfl, hopens.grows.tail ⟨_, _, hadds⟩, hread⟩
  rw [Command.store, Work.run_bind_of_ok (Work.run_makeParents_of_ok hadd)]
  exact Work.run_writeFile_of_ok hwrite

end Store

end Files
end AliasCheck
