import AliasCheck.Glob.Expand
import AliasCheck.Proofs.FileGrowth
import AliasCheck.Proofs.Parts
import AliasCheck.Proofs.Results

/-!
# Paths in trees that grow

A path whose beginnings all lead to places that were there before leads to the same as before, and
what is read at its end is the same text.
-/

namespace AliasCheck

/-! ## The names in a path -/

namespace Path

/-- The names between the slashes of a text. -/
def namesOf (text : List Char) : List String :=
  ((splitAt '/' text).filter (! ·.isEmpty)).map String.ofList

theorem ofString?_eq_some {text : String} (h : text ≠ "") :
    ofString? text = some ⟨text.toList.head? = some '/', namesOf text.toList,
      text.toList.getLast? = some '/'⟩ := by
  rw [ofString?, if_neg (by rwa [String.isEmpty_iff])]
  rfl

theorem ofString?_of_eq_some {text : String} {p : Path} (h : ofString? text = some p) :
    text ≠ "" := by
  rintro rfl
  cases h

theorem namesOf_append (front rest : List Char) :
    namesOf (front ++ '/' :: rest) = namesOf front ++ namesOf rest := by
  rw [namesOf, splitAt_append, List.filter_append, List.map_append]
  rfl

theorem namesOf_of_isName {name : String} (h : IsName name) : namesOf name.toList = [name] := by
  have hempty : name.toList.isEmpty = false := by
    rw [List.isEmpty_eq_false_iff, ne_eq, String.toList_eq_nil_iff]
    exact h.ne_empty
  rw [namesOf, splitAt_of_notMem h.noSlash, List.filter_cons_of_pos (by rw [hempty]; rfl)]
  show [String.ofList name.toList] = _
  rw [String.ofList_toList]

theorem of_mem_namesOf {name : String} {text : List Char} (h : name ∈ namesOf text) :
    name ≠ "" ∧ '/' ∉ name.toList := by
  obtain ⟨part, hpart, rfl⟩ := List.mem_map.mp h
  obtain ⟨hmem, hne⟩ := List.mem_filter.mp hpart
  rw [String.toList_ofList]
  refine ⟨?_, notMem_of_mem_splitAt hmem⟩
  intro hnil
  have hpart : part = [] := by rw [← String.toList_ofList (l := part), hnil]; rfl
  rw [hpart] at hne
  cases hne

/-- A name that is joined to a path adds its own names. -/
theorem ofString?_join {path : String} {p : Path} (h : ofString? path = some p) (name : String) :
    ∃ closed, ofString? (Glob.join path name)
      = some ⟨p.absolute, p.names ++ namesOf name.toList, closed⟩ := by
  have hpath := ofString?_of_eq_some h
  rw [ofString?_eq_some hpath] at h
  cases h
  have hempty : path.isEmpty = false := by
    rw [← Bool.not_eq_true, String.isEmpty_iff]
    exact hpath
  obtain ⟨c, cs, hcs⟩ := List.exists_cons_of_ne_nil
    (show path.toList ≠ [] by rwa [ne_eq, String.toList_eq_nil_iff])
  have hjoin : ∃ front, namesOf front = namesOf path.toList ∧
      (Glob.join path name).toList = front ++ '/' :: name.toList ∧
      (front ++ '/' :: name.toList).head? = path.toList.head? := by
    rw [Glob.join, hempty, Bool.false_or]
    by_cases hlast : path.toList.getLast? = some '/'
    · obtain ⟨front, hfront⟩ := List.getLast?_eq_some_iff.mp hlast
      rw [if_pos (decide_eq_true hlast), String.toList_append, hfront, List.append_assoc]
      refine ⟨front, ?_, rfl, ?_⟩
      · rw [namesOf_append]
        exact (List.append_nil _).symm
      · cases front <;> rfl
    · rw [if_neg (by rwa [decide_eq_true_eq]), String.toList_append, String.toList_append,
        List.append_assoc]
      refine ⟨path.toList, rfl, rfl, ?_⟩
      rw [hcs]
      rfl
  obtain ⟨front, hnames, htext, hhead⟩ := hjoin
  have hne : Glob.join path name ≠ "" := by
    rw [ne_eq, ← String.toList_eq_nil_iff, htext, List.append_eq_nil_iff]
    exact fun hnil => by cases hnil.2
  rw [ofString?_eq_some hne, htext, namesOf_append, hnames, hhead]
  exact ⟨_, rfl⟩

end Path

/-! ## The places on the way -/

namespace Files

/-- A path leads to a place. -/
def LeadsTo (files : Files) (path : String) (place : List String) : Prop :=
  ∃ p, Path.ofString? path = some p ∧ files.root.locate (files.start p) p.names = .ok place

/-- A beginning of a path leads to a place. -/
def Passes (files : Files) (path : String) (place : List String) : Prop :=
  ∃ p front, Path.ofString? path = some p ∧ front <+: p.names ∧
    files.root.locate (files.start p) front = .ok place

/-- All places to which the beginnings of a path lead in other files are known in these. -/
def Knows (files files' : Files) (path : String) : Prop :=
  ∀ place, files'.Passes path place → (files.root.get? place).isSome

/-- Nothing is lost from files, and they are seen from the same directory. -/
structure Keeps (files files' : Files) : Prop where
  here : files'.here = files.here
  root : files.root.Keeps files'.root

section Paths

variable {files files' : Files} {path name name' text : String} {place : List String} {u : FileTree}
  {entries : List (String × FileTree)}

theorem LeadsTo.passes (h : files.LeadsTo path place) : files.Passes path place := by
  obtain ⟨p, hp, hplace⟩ := h
  exact ⟨p, p.names, hp, List.prefix_rfl, hplace⟩

theorem Passes.of_keeps (hkeeps : files.Keeps files') (h : files.Passes path place) :
    files'.Passes path place := by
  obtain ⟨p, front, hp, hfront, hplace⟩ := h
  refine ⟨p, front, hp, hfront, ?_⟩
  rw [start, hkeeps.here]
  exact hkeeps.root.locate_eq_ok hplace

/-- There is something at the place to which a path leads that is found. -/
theorem find_eq_ok (h : files.find path = .ok u) :
    ∃ place, files.LeadsTo path place ∧ files.root.get? place = some u := by
  rw [find] at h
  cases hp : Path.ofString? path with
  | none => rw [hp] at h; cases h
  | some p =>
    rw [hp] at h
    obtain ⟨place, hplace, hfound⟩ := bind_eq_ok.mp h
    refine ⟨place, ⟨p, hp, hplace⟩, ?_⟩
    split at hfound
    · cases hfound
    · rename_i hget
      split at hfound
      · cases hfound
      · cases hfound
        exact hget
    · rename_i hget
      cases hfound
      exact hget

theorem exists_find_of_read (h : files.read path = .ok text) : ∃ u, files.find path = .ok u := by
  rw [read] at h
  obtain ⟨u, hu, -⟩ := bind_eq_ok.mp h
  exact ⟨u, hu⟩

theorem find_of_leadsTo (h : files.LeadsTo path place)
    (hplace : files.root.get? place = some (.directory entries)) :
    files.find path = .ok (.directory entries) := by
  obtain ⟨p, hp, hlocate⟩ := h
  simp only [find, hp, hlocate, hplace, bind, Except.bind]

/-- What can be said about a path in both files if its beginnings are known: it leads nowhere, to
the same file or to the same directory, which may hold more. -/
inductive Meets (files files' : Files) (path : String) : Prop where
  | nowhere (e : FileError) (before : files.find path = .error e)
      (after : files'.find path = .error e)
  | file (text : Option String) (before : files.find path = .ok (.file text))
      (after : files'.find path = .ok (.file text))
  | directory (place : List String) (entries entries' : List (String × FileTree))
      (leads : files'.LeadsTo path place)
      (before : files.root.get? place = some (.directory entries))
      (after : files'.root.get? place = some (.directory entries'))
      (found : files.find path = .ok (.directory entries))
      (found' : files'.find path = .ok (.directory entries'))

theorem Knows.meets (hkeeps : files.Keeps files') (h : files.Knows files' path) :
    files.Meets files' path := by
  cases hp : Path.ofString? path with
  | none => exact .nowhere .notFound (by rw [find, hp]) (by rw [find, hp])
  | some p =>
    have hlocate : files'.root.locate (files'.start p) p.names
        = files.root.locate (files.start p) p.names := by
      have hstart : files'.start p = files.start p := by rw [start, start, hkeeps.here]
      rw [← hstart]
      exact hkeeps.root.locate_eq fun front place hfront hplace =>
        h place ⟨p, front, hp, hfront, hplace⟩
    cases hplace : files.root.locate (files.start p) p.names with
    | error e =>
      rw [hplace] at hlocate
      refine .nowhere e ?_ ?_
      · simp only [find, hp, hplace, bind, Except.bind]
      · simp only [find, hp, hlocate, bind, Except.bind]
    | ok place =>
      rw [hplace] at hlocate
      have hleads : files'.LeadsTo path place := ⟨p, hp, hlocate⟩
      obtain ⟨u, hu⟩ := Option.isSome_iff_exists.mp (h place hleads.passes)
      cases u with
      | file text =>
        have hu' := hkeeps.root.file place text hu
        by_cases hclosed : p.closed = true
        · refine .nowhere .notDirectory ?_ ?_
          · simp only [find, hp, hplace, hu, hclosed, bind, Except.bind, if_true]
          · simp only [find, hp, hlocate, hu', hclosed, bind, Except.bind, if_true]
        · refine .file text ?_ ?_
          · simp only [find, hp, hplace, hu, hclosed, bind, Except.bind]
            rfl
          · simp only [find, hp, hlocate, hu', hclosed, bind, Except.bind]
            rfl
      | directory entries =>
        obtain ⟨entries', hu'⟩ := hkeeps.root.directory place entries hu
        exact .directory place entries entries' hleads hu hu'
          (find_of_leadsTo ⟨p, hp, hplace⟩ hu) (find_of_leadsTo hleads hu')

theorem Meets.read_eq (h : files.Meets files' path) : files'.read path = files.read path := by
  cases h with
  | nowhere e before after => rw [read, read, before, after]
  | file text before after => rw [read, read, before, after]
  | directory place entries entries' leads before after found found' =>
    rw [read, read, found, found']
    rfl

theorem Meets.has_eq (h : files.Meets files' path) : files'.has path = files.has path := by
  cases h with
  | nowhere e before after => rw [has, has, before, after]
  | file text before after => rw [has, has, before, after]
  | directory place entries entries' leads before after found found' =>
    rw [has, has, found, found']
    rfl

theorem Meets.hasDirectory_eq (h : files.Meets files' path) :
    files'.hasDirectory path = files.hasDirectory path := by
  cases h with
  | nowhere e before after => rw [hasDirectory, hasDirectory, before, after]
  | file text before after => rw [hasDirectory, hasDirectory, before, after]
  | directory place entries entries' leads before after found found' =>
    rw [hasDirectory, hasDirectory, found, found']
    rfl

/-- The beginnings of a path that leads somewhere are known. -/
theorem LeadsTo.knows (hkeeps : files.Keeps files') (hhere : (files.root.get? files.here).isSome)
    (h : files.LeadsTo path place) : files.Knows files' path := by
  obtain ⟨p, hp, hlocate⟩ := h
  rintro there ⟨p', front, hp', ⟨back, hnames⟩, hthere⟩
  cases hp.symm.trans hp'
  rw [← hnames, FileTree.locate_append] at hlocate
  obtain ⟨middle, hmiddle, -⟩ := bind_eq_ok.mp hlocate
  have hmiddle' := hkeeps.root.locate_eq_ok hmiddle
  rw [start, hkeeps.here] at hthere
  cases hthere.symm.trans hmiddle'
  refine FileTree.isSome_of_locate hmiddle ?_
  rw [start]
  split
  · rfl
  · exact hhere

/-- The text of a file is still read when there is more. -/
theorem Keeps.read_eq_ok (hkeeps : files.Keeps files')
    (hhere : (files.root.get? files.here).isSome) (h : files.read path = .ok text) :
    files'.read path = .ok text := by
  obtain ⟨u, hu⟩ := exists_find_of_read h
  obtain ⟨place, hleads, -⟩ := find_eq_ok hu
  rw [((hleads.knows hkeeps hhere).meets hkeeps).read_eq]
  exact h

/-! ## Paths that are made longer -/

theorem Knows.of_join (h : files.Knows files' (Glob.join path name)) : files.Knows files' path := by
  rintro place ⟨p, front, hp, hfront, hplace⟩
  obtain ⟨closed, hjoin⟩ := Path.ofString?_join hp name
  exact h place ⟨_, front, hjoin, hfront.trans (List.prefix_append _ _), hplace⟩

theorem self_of_isHere {p : Path} (h : Glob.isHere path = true)
    (hp : Path.ofString? path = some p) :
    p.absolute = false ∧ ∀ name ∈ p.names, name = FileTree.selfName := by
  rw [Glob.isHere, hp] at h
  simp only [Bool.and_eq_true, Bool.not_eq_true', List.all_eq_true, decide_eq_true_eq] at h
  exact ⟨h.1.1, h.2⟩

/-- The path of the working directory passes no other place. -/
theorem Knows.of_isHere (hkeeps : files.Keeps files')
    (hhere : (files.root.get? files.here).isSome) (h : Glob.isHere path = true) :
    files.Knows files' path := by
  rintro place ⟨p, front, hp, hfront, hplace⟩
  obtain ⟨habsolute, hself⟩ := self_of_isHere h hp
  rw [start, habsolute, if_neg Bool.false_ne_true, hkeeps.here] at hplace
  rw [FileTree.eq_of_locate_self hplace fun name hname => hself name (hfront.subset hname)]
  exact hhere

theorem Knows.of_extend (hkeeps : files.Keeps files')
    (hhere : (files.root.get? files.here).isSome)
    (h : files.Knows files' (Glob.extend path name)) : files.Knows files' path := by
  rw [Glob.extend] at h
  split at h
  · exact .of_isHere hkeeps hhere ‹_›
  · exact h.of_join

/-- A path with a name that is in the directory behind it leads to what is under the name. -/
theorem LeadsTo.extend (h : files.LeadsTo path place)
    (hplace : files.root.get? place = some (.directory entries)) (hname : IsName name)
    (hmem : (Table.get? name entries).isSome) :
    files.LeadsTo (Glob.extend path name) (place ++ [name]) := by
  obtain ⟨p, hp, hlocate⟩ := h
  have hstep : files.root.locate place [name] = .ok (place ++ [name]) := by
    rw [FileTree.locate_cons hplace, if_neg hname.ne_self, if_neg hname.ne_parent,
      FileTree.get?_concat hplace, if_pos hmem]
    rfl
  rw [Glob.extend]
  by_cases hself : Glob.isHere path = true
  · obtain ⟨habsolute, hnames⟩ := self_of_isHere hself hp
    have hfirst : name.toList.head? ≠ some '/' :=
      fun hhead => hname.noSlash (List.mem_of_head? hhead)
    rw [start, habsolute, if_neg Bool.false_ne_true] at hlocate
    have heq := FileTree.eq_of_locate_self hlocate hnames
    rw [if_pos hself]
    refine ⟨_, Path.ofString?_eq_some hname.ne_empty, ?_⟩
    rw [Path.namesOf_of_isName hname, start, if_neg (by simpa using hfirst), ← heq]
    exact hstep
  · obtain ⟨closed, hjoin⟩ := Path.ofString?_join hp name
    rw [if_neg hself]
    refine ⟨_, hjoin, ?_⟩
    show files.root.locate (files.start p) (p.names ++ Path.namesOf name.toList) = _
    rw [Path.namesOf_of_isName hname, FileTree.locate_append, hlocate]
    exact hstep

/-- Something is added to files, under a name that was free in a directory that was there. -/
structure Adds (files files' : Files) (place : List String) (name : String) : Prop where
  some_here : (files.root.get? files.here).isSome
  same_here : files'.here = files.here
  root : files.root.Adds files'.root place name

section Adds

variable (h : files.Adds files' place name)

include h

theorem Adds.keeps : files.Keeps files' := ⟨h.same_here, h.root.keeps⟩

/-- The beginnings of a path that leads somewhere are known. -/
theorem Adds.knows_of_find (hfind : files.find path = .ok u) : files.Knows files' path := by
  obtain ⟨there, hleads, -⟩ := find_eq_ok hfind
  exact hleads.knows h.keeps h.some_here

/-- A path that is not known leads nowhere yet. -/
theorem Adds.exists_error (hknown : ¬ files.Knows files' path) :
    ∃ e, files.find path = .error e := by
  cases hfind : files.find path with
  | error e => exact ⟨e, rfl⟩
  | ok u => exact absurd (h.knows_of_find hfind) hknown

/-- The path of what is added is not known. -/
theorem Adds.not_knows (hleads : files'.LeadsTo path (place ++ [name])) :
    ¬ files.Knows files' path := by
  intro hknown
  have hold := hknown _ hleads.passes
  rw [h.root.room.vacant] at hold
  cases hold

theorem Adds.meets (hknown : files.Knows files' path) : files.Meets files' path :=
  hknown.meets h.keeps

theorem Adds.of_extend (hknown : files.Knows files' (Glob.extend path name')) :
    files.Knows files' path :=
  hknown.of_extend h.keeps h.some_here

/-- A directory keeps its names, and if something is added to it there is one more. -/
theorem Adds.names_eq {there : List String} {entries' : List (String × FileTree)}
    (before : files.root.get? there = some (.directory entries))
    (after : files'.root.get? there = some (.directory entries')) :
    Table.names entries' = Table.names entries ∨
      there = place ∧ Table.names entries' = Table.names entries ++ [name] := by
  rcases h.root.get?_eq before after with hsame | ⟨leaf, rest, rfl, hroom, hput⟩
  · cases hsame
    exact .inl rfl
  · obtain ⟨_, inner, hentries, hinner, hnames⟩ := hroom.exists_put leaf
    cases hentries
    cases hput.trans hinner
    refine hnames.imp_right ?_
    rintro ⟨rfl, hnew⟩
    exact ⟨(List.append_nil there).symm, hnew⟩

end Adds

end Paths
end Files
end AliasCheck
