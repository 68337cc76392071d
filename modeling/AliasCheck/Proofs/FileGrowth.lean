import AliasCheck.Files.Tree
import AliasCheck.Proofs.Tables
import Mathlib.Logic.Relation

/-!
# Trees that grow

Something is put where there was nothing, in a directory that was there. All other places keep what
they hold, except that the directories on the way show the new things. Written names therefore lead
to where they led before, unless they pass a place that is new.
-/

namespace AliasCheck

/-- A name that stands for an entry of a directory in a path. -/
structure IsName (name : String) : Prop where
  ne_empty : name ≠ ""
  noSlash : '/' ∉ name.toList
  ne_self : name ≠ FileTree.selfName
  ne_parent : name ≠ FileTree.parentName

namespace FileTree

section Places

variable {t : FileTree} {here place : List String} {name : String}
  {entries : List (String × FileTree)}

theorem get?_append (front back : List String) (t : FileTree) :
    get? (front ++ back) t = (get? front t).bind (get? back) := by
  induction front generalizing t with
  | nil => rfl
  | cons name front ih =>
    rw [List.cons_append, get?, get?]
    cases Table.get? name t.entries with
    | none => rfl
    | some u => exact ih u

theorem get?_concat (h : get? here t = some (directory entries)) (name : String) :
    get? (here ++ [name]) t = Table.get? name entries := by
  rw [get?_append, h]
  show (Table.get? name entries).bind some = _
  exact Option.bind_fun_some _

/-- What is above something is a directory, or the root. -/
theorem exists_directory_dropLast (h : get? place t = some (directory entries)) :
    ∃ entries, get? place.dropLast t = some (directory entries) := by
  rcases place.eq_nil_or_concat with rfl | ⟨front, name, rfl⟩
  · exact ⟨entries, h⟩
  · rw [List.concat_eq_append, get?_append] at h
    obtain ⟨u, hu, hname⟩ := Option.bind_eq_some_iff.mp h
    rw [List.concat_eq_append, List.dropLast_concat]
    cases u with
    | file text => cases hname
    | directory inner => exact ⟨inner, hu⟩

/-- A tree in which there is a directory is a directory itself. -/
theorem exists_directory_root (h : get? place t = some (directory entries)) :
    ∃ entries, get? [] t = some (directory entries) := by
  cases t with
  | directory inner => exact ⟨inner, rfl⟩
  | file text =>
    cases place with
    | nil => exact ⟨entries, h⟩
    | cons name names => cases h

/-- What is above something is there. -/
theorem isSome_get?_dropLast (h : (get? place t).isSome) : (get? place.dropLast t).isSome := by
  rcases place.eq_nil_or_concat with rfl | ⟨front, name, rfl⟩
  · rfl
  · rw [List.concat_eq_append, get?_append] at h
    rw [List.concat_eq_append, List.dropLast_concat]
    exact Option.isSome_of_isSome_bind h

end Places

/-! ## Putting something where there was nothing -/

/-- There is a directory at a place, and nothing under a name in it. -/
def HasRoom (t : FileTree) (place : List String) (name : String) : Prop :=
  ∃ entries, get? place t = some (directory entries) ∧ Table.get? name entries = none

section HasRoom

variable {t u leaf : FileTree} {place there : List String} {name : String}
  {entries : List (String × FileTree)}

theorem HasRoom.vacant (h : t.HasRoom place name) : get? (place ++ [name]) t = none := by
  obtain ⟨entries, hplace, hname⟩ := h
  rw [get?_concat hplace, hname]

/-- A directory with room below it is entered by the first name on the way. -/
theorem HasRoom.cons {first : String} (h : t.HasRoom (first :: place) name) :
    ∃ entries u, t = directory entries ∧ Table.get? first entries = some u ∧
      u.HasRoom place name := by
  obtain ⟨inner, hplace, hname⟩ := h
  cases t with
  | file text => cases hplace
  | directory entries =>
    obtain ⟨u, hu, hrest⟩ := Option.bind_eq_some_iff.mp hplace
    exact ⟨entries, u, rfl, hu, inner, hrest, hname⟩

/-- A new name goes to the end. -/
theorem put_last (h : Table.get? name entries = none) :
    put leaf [name] (directory entries) = directory (entries ++ [(name, leaf)]) := by
  show directory (Table.insert name leaf entries) = _
  rw [Table.insert_of_notMem (Table.get?_eq_none.mp h)]

/-- On the way to a new thing one directory is replaced in its place. -/
theorem put_below {first : String} (h : Table.get? first entries = some u) (rest : List String) :
    put leaf (first :: rest) (directory entries)
      = directory (Table.insert first (put leaf rest u) entries) := by
  show directory (Table.insert first (put leaf rest ((Table.get? first entries).getD _)) entries)
    = _
  rw [h]
  rfl

/-- What was at a place is still there, unless it is a directory on the way to the new thing. -/
theorem get?_put_of_room (leaf : FileTree) (h : t.HasRoom place name)
    (hthere : get? there t = some u) :
    get? there (put leaf (place ++ [name]) t) = some u ∨
      ∃ rest, place = there ++ rest ∧ u.HasRoom rest name ∧
        get? there (put leaf (place ++ [name]) t) = some (put leaf (rest ++ [name]) u) := by
  induction there generalizing t place with
  | nil =>
    cases hthere
    exact .inr ⟨place, rfl, h, rfl⟩
  | cons other there ih =>
    cases place with
    | nil =>
      obtain ⟨entries, hplace, hname⟩ := h
      cases hplace
      have hne : other ≠ name := by
        rintro rfl
        have hbind : (Table.get? other entries).bind (get? there) = some u := hthere
        rw [hname] at hbind
        cases hbind
      left
      show (Table.get? other (Table.insert name leaf entries)).bind (get? there) = some u
      rw [Table.get?_insert, if_neg hne]
      exact hthere
    | cons first place =>
      obtain ⟨entries, v, rfl, hv, hroom⟩ := h.cons
      have hbind : (Table.get? other entries).bind (get? there) = some u := hthere
      rw [List.cons_append, put_below hv]
      show (Table.get? other (Table.insert first _ entries)).bind (get? there) = some u ∨ ∃ rest,
        _ ∧ _ ∧ (Table.get? other (Table.insert first _ entries)).bind (get? there) = some _
      rw [Table.get?_insert]
      by_cases heq : other = first
      · subst heq
        rw [hv] at hbind
        rw [if_pos rfl]
        refine (ih hroom hbind).imp_right ?_
        rintro ⟨rest, rfl, hrest⟩
        exact ⟨rest, rfl, hrest⟩
      · rw [if_neg heq]
        exact .inl hbind

/-- What is new is what was put there. -/
theorem get?_put_new (h : t.HasRoom place name) (hnone : get? there t = none)
    (hthere : get? there (put leaf (place ++ [name]) t) = some u) :
    ∃ rest, there = place ++ name :: rest ∧ get? rest leaf = some u := by
  induction place generalizing t there with
  | nil =>
    obtain ⟨entries, hplace, hname⟩ := h
    cases hplace
    cases there with
    | nil => cases hnone
    | cons other there =>
      have hput : (Table.get? other (Table.insert name leaf entries)).bind (get? there) = some u :=
        hthere
      rw [Table.get?_insert] at hput
      split at hput
      · rename_i heq
        exact ⟨there, by rw [heq]; rfl, hput⟩
      · have hold : (Table.get? other entries).bind (get? there) = none := hnone
        rw [hold] at hput
        cases hput
  | cons first place ih =>
    obtain ⟨entries, v, rfl, hv, hroom⟩ := h.cons
    rw [List.cons_append, put_below hv] at hthere
    cases there with
    | nil => cases hnone
    | cons other there =>
      have hold : (Table.get? other entries).bind (get? there) = none := hnone
      have hput : (Table.get? other (Table.insert first (put leaf (place ++ [name]) v)
          entries)).bind (get? there) = some u := hthere
      rw [Table.get?_insert] at hput
      by_cases heq : other = first
      · subst heq
        rw [hv] at hold
        rw [if_pos rfl] at hput
        obtain ⟨rest, rfl, hrest⟩ := ih hroom hold hput
        exact ⟨rest, rfl, hrest⟩
      · rw [if_neg heq, hold] at hput
        cases hput

/-- Putting something into a directory leaves it a directory, and its names stay what they were but
for a new one. -/
theorem HasRoom.exists_put (h : u.HasRoom place name) (leaf : FileTree) :
    ∃ entries entries', u = directory entries ∧
      put leaf (place ++ [name]) u = directory entries' ∧
      (Table.names entries' = Table.names entries ∨
        place = [] ∧ Table.names entries' = Table.names entries ++ [name]) := by
  cases place with
  | nil =>
    obtain ⟨entries, hplace, hname⟩ := h
    cases hplace
    refine ⟨entries, _, rfl, put_last hname, .inr ⟨rfl, ?_⟩⟩
    rw [Table.names, List.map_append]
    rfl
  | cons first place =>
    obtain ⟨entries, v, rfl, hv, -⟩ := h.cons
    have hmem : first ∈ Table.names entries := by
      rw [← Table.isSome_get?_iff, hv]
      rfl
    refine ⟨entries, _, rfl, put_below hv _, .inl ?_⟩
    rw [Table.names_insert, if_pos hmem]

end HasRoom

/-! ## Trees that keep what they hold -/

/-- Files stay where they are, and directories stay directories. -/
structure Keeps (t t' : FileTree) : Prop where
  file : ∀ place text, get? place t = some (file text) → get? place t' = some (file text)
  directory : ∀ place entries, get? place t = some (directory entries) →
    ∃ entries', get? place t' = some (directory entries')

section Keeps

variable {t t' t'' : FileTree} {here place names : List String} {name : String}

theorem Keeps.refl (t : FileTree) : Keeps t t := ⟨fun _ _ h => h, fun _ entries h => ⟨entries, h⟩⟩

theorem Keeps.trans (h : Keeps t t') (h' : Keeps t' t'') : Keeps t t'' := by
  refine ⟨fun place text hplace => h'.file place text (h.file place text hplace), ?_⟩
  intro place entries hplace
  obtain ⟨entries', hplace'⟩ := h.directory place entries hplace
  exact h'.directory place entries' hplace'

theorem HasRoom.keeps (h : t.HasRoom place name) (leaf : FileTree) :
    Keeps t (put leaf (place ++ [name]) t) := by
  constructor
  · intro there text hthere
    rcases get?_put_of_room leaf h hthere with hsame | ⟨rest, -, hroom, -⟩
    · exact hsame
    · obtain ⟨entries, entries', hfile, -⟩ := hroom.exists_put leaf
      cases hfile
  · intro there entries hthere
    rcases get?_put_of_room leaf h hthere with hsame | ⟨rest, -, hroom, hput⟩
    · exact ⟨entries, hsame⟩
    · obtain ⟨entries, entries', -, hdirectory, -⟩ := hroom.exists_put leaf
      exact ⟨entries', hput.trans (congrArg some hdirectory)⟩

theorem Keeps.isSome (h : Keeps t t') (hplace : (get? place t).isSome) :
    (get? place t').isSome := by
  obtain ⟨u, hu⟩ := Option.isSome_iff_exists.mp hplace
  cases u with
  | file text => rw [h.file place text hu]; rfl
  | directory entries =>
    obtain ⟨entries', hentries'⟩ := h.directory place entries hu
    rw [hentries']
    rfl

end Keeps

/-! ## Trees to which something is added -/

/-- Something is added to a tree, under a name that was free in a directory that was there. -/
structure Adds (t t' : FileTree) (place : List String) (name : String) : Prop where
  room : t.HasRoom place name
  names : ∀ other ∈ place, IsName other
  isName : IsName name
  added : ∃ leaf, t' = put leaf (place ++ [name]) t

/-- Any number of things are added to a tree, one after the other. -/
def Grows : FileTree → FileTree → Prop :=
  Relation.ReflTransGen fun t t' => ∃ place name, t.Adds t' place name

section Adds

variable {t t' u u' : FileTree} {place there : List String} {name : String}

theorem Adds.keeps (h : t.Adds t' place name) : t.Keeps t' := by
  obtain ⟨leaf, rfl⟩ := h.added
  exact h.room.keeps leaf

/-- What was at a place is still there, unless it is a directory on the way to what is added. -/
theorem Adds.get?_eq (h : t.Adds t' place name) (before : get? there t = some u)
    (after : get? there t' = some u') :
    u' = u ∨ ∃ leaf rest, place = there ++ rest ∧ u.HasRoom rest name ∧
      u' = put leaf (rest ++ [name]) u := by
  obtain ⟨leaf, rfl⟩ := h.added
  rcases get?_put_of_room leaf h.room before with hsame | ⟨rest, hplace, hroom, hput⟩
  · exact .inl (Option.some.inj (after.symm.trans hsame))
  · exact .inr ⟨leaf, rest, hplace, hroom, Option.some.inj (after.symm.trans hput)⟩

theorem Grows.keeps (h : t.Grows t') : t.Keeps t' := by
  induction h with
  | refl => exact .refl t
  | tail _ hadds ih =>
    obtain ⟨place, name, hadds⟩ := hadds
    exact ih.trans hadds.keeps

end Adds

/-! ## Where written names lead -/

section Locate

variable {t t' : FileTree} {here place names : List String} {name : String}

/-- A name is looked up in a directory. -/
theorem locate_cons {entries : List (String × FileTree)}
    (h : get? here t = some (directory entries)) (name : String) (names : List String) :
    locate t here (name :: names) =
      if name = selfName then locate t here names
      else if name = parentName then locate t here.dropLast names
      else if (get? (here ++ [name]) t).isSome then locate t (here ++ [name]) names
      else .error .notFound := by
  rw [locate, h, get?_concat h]

theorem exists_directory_of_locate {names : List String}
    (h : locate t here (name :: names) = .ok place) :
    ∃ entries, get? here t = some (directory entries) := by
  rw [locate] at h
  split at h
  · cases h
  · cases h
  · exact ⟨_, ‹_›⟩

theorem locate_append (t : FileTree) (here names more : List String) :
    locate t here (names ++ more) = locate t here names >>= fun place => locate t place more := by
  induction names generalizing here with
  | nil => rfl
  | cons name names ih =>
    rw [List.cons_append, locate, locate]
    split
    · rfl
    · rfl
    · split
      · exact ih here
      · split
        · exact ih here.dropLast
        · split
          · exact ih _
          · rfl

/-- A directory leads to itself under its own name. -/
theorem eq_of_locate_self (h : locate t here names = .ok place)
    (hself : ∀ name ∈ names, name = selfName) : place = here := by
  induction names with
  | nil =>
    cases h
    rfl
  | cons name names ih =>
    obtain ⟨hname, hnames⟩ := List.forall_mem_cons.mp hself
    obtain ⟨entries, hentries⟩ := exists_directory_of_locate h
    rw [locate_cons hentries, if_pos hname] at h
    exact ih h hnames

/-- Names that lead anywhere lead to something. -/
theorem isSome_of_locate (h : locate t here names = .ok place) (hhere : (get? here t).isSome) :
    (get? place t).isSome := by
  induction names generalizing here with
  | nil =>
    cases h
    exact hhere
  | cons name names ih =>
    obtain ⟨entries, hentries⟩ := exists_directory_of_locate h
    rw [locate_cons hentries] at h
    split at h
    · exact ih h hhere
    · split at h
      · exact ih h (isSome_get?_dropLast hhere)
      · split at h
        · exact ih h ‹_›
        · cases h

/-- Names lead to the same place in a tree that keeps what there was. -/
theorem Keeps.locate_eq_ok (hkeeps : Keeps t t') (h : locate t here names = .ok place) :
    locate t' here names = .ok place := by
  induction names generalizing here with
  | nil => exact h
  | cons name names ih =>
    obtain ⟨entries, hentries⟩ := exists_directory_of_locate h
    obtain ⟨entries', hentries'⟩ := hkeeps.directory here entries hentries
    rw [locate_cons hentries] at h
    rw [locate_cons hentries']
    by_cases hself : name = selfName
    · rw [if_pos hself] at h ⊢
      exact ih h
    rw [if_neg hself] at h ⊢
    by_cases hparent : name = parentName
    · rw [if_pos hparent] at h ⊢
      exact ih h
    rw [if_neg hparent] at h ⊢
    split at h
    · rename_i hnext
      rw [if_pos (hkeeps.isSome hnext)]
      exact ih h
    · cases h

/-- Names that pass no new place lead nowhere else, and fail for the same reason. -/
theorem Keeps.locate_eq (hkeeps : Keeps t t')
    (h : ∀ front place, front <+: names → locate t' here front = .ok place →
      (get? place t).isSome) :
    locate t' here names = locate t here names := by
  induction names generalizing here with
  | nil => rfl
  | cons name names ih =>
    obtain ⟨u, hu⟩ := Option.isSome_iff_exists.mp (h [] here List.nil_prefix rfl)
    cases u with
    | file text => rw [locate, locate, hu, hkeeps.file here text hu]
    | directory entries =>
      obtain ⟨entries', hentries'⟩ := hkeeps.directory here entries hu
      have hstep : ∀ next, (∀ front, locate t' here (name :: front) = locate t' next front) →
          locate t' next names = locate t next names := by
        intro next hnext
        refine ih fun front place hfront hplace => ?_
        exact h (name :: front) place (List.cons_prefix_cons.mpr ⟨rfl, hfront⟩)
          ((hnext front).trans hplace)
      rw [locate_cons hentries', locate_cons hu]
      by_cases hself : name = selfName
      · rw [if_pos hself, if_pos hself]
        exact hstep here fun front => by rw [locate_cons hentries', if_pos hself]
      rw [if_neg hself, if_neg hself]
      by_cases hparent : name = parentName
      · rw [if_pos hparent, if_pos hparent]
        exact hstep _ fun front => by
          rw [locate_cons hentries', if_neg hself, if_pos hparent]
      rw [if_neg hparent, if_neg hparent]
      by_cases hnext : (get? (here ++ [name]) t').isSome
      · have hpass : ∀ front,
            locate t' here (name :: front) = locate t' (here ++ [name]) front := by
          intro front
          rw [locate_cons hentries', if_neg hself, if_neg hparent, if_pos hnext]
        have hold : (get? (here ++ [name]) t).isSome :=
          h [name] _ (List.cons_prefix_cons.mpr ⟨rfl, List.nil_prefix⟩) (hpass [])
        rw [if_pos hnext, if_pos hold]
        exact hstep _ hpass
      · have hnone : ¬ (get? (here ++ [name]) t).isSome := fun hold => hnext (hkeeps.isSome hold)
        rw [if_neg hnext, if_neg hnone]

end Locate

end FileTree
end AliasCheck
