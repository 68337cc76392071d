import AliasCheck.Proofs.PathFrames

/-!
# Globs in trees that grow

A glob is expanded once before and once after something is put where there was nothing. If all the
paths that are found afterwards have only known beginnings, then they are the paths that were found
before, in the same order.
-/

namespace AliasCheck
namespace Glob

/-! ## Findings in the order of the names -/

section InOrder

variable {α : Type} {found : List (String × List α)}

/-- The first item of a list is sorted in behind what it is not to stand in front of. -/
theorem mergeSort_cons_eq {le : α → α → Bool} (htrans : ∀ a b c, le a b → le b c → le a c)
    (htotal : ∀ a b, le a b || le b a) (a : α) (xs : List α) :
    (a :: xs).mergeSort le
      = (xs.mergeSort le).filter (fun b => ! le a b) ++ a :: (xs.mergeSort le).filter (le a) := by
  obtain ⟨front, back, hcons, hrest, hfront⟩ := List.mergeSort_cons htrans htotal a xs
  have hsorted := List.pairwise_mergeSort htrans htotal (a :: xs)
  rw [hcons] at hsorted
  have hback : ∀ b ∈ back, le a b = true :=
    fun b hb => List.rel_of_pairwise_cons (List.pairwise_append.mp hsorted).2.1 hb
  have hdrop : back.filter (fun b => ! le a b) = [] :=
    List.filter_eq_nil_iff.mpr fun b hb => by simp [hback b hb]
  have hnone : front.filter (le a) = [] :=
    List.filter_eq_nil_iff.mpr fun b hb => by simpa using hfront b hb
  rw [hcons, hrest, List.filter_append, List.filter_append, hdrop, hnone,
    List.filter_eq_self.mpr hfront, List.filter_eq_self.mpr hback, List.append_nil,
    List.nil_append]

/-- One more item at the end of a list is sorted in somewhere. -/
theorem exists_mergeSort_append {le : α → α → Bool} (htrans : ∀ a b c, le a b → le b c → le a c)
    (htotal : ∀ a b, le a b || le b a) (xs : List α) (x : α) :
    ∃ front back, (xs ++ [x]).mergeSort le = front ++ x :: back ∧
      xs.mergeSort le = front ++ back := by
  induction xs with
  | nil => exact ⟨[], [], by simp, by simp⟩
  | cons a xs ih =>
    obtain ⟨front, back, hmore, hxs⟩ := ih
    rw [List.cons_append, mergeSort_cons_eq htrans htotal, mergeSort_cons_eq htrans htotal, hmore,
      hxs]
    simp only [List.filter_append, List.filter_cons]
    cases hx : le a x with
    | true =>
      refine ⟨front.filter (fun b => ! le a b) ++ back.filter (fun b => ! le a b)
        ++ a :: front.filter (le a), back.filter (le a), ?_, ?_⟩ <;> simp
    | false =>
      refine ⟨front.filter (fun b => ! le a b), back.filter (fun b => ! le a b)
        ++ a :: (front.filter (le a) ++ back.filter (le a)), ?_, ?_⟩ <;> simp

theorem mem_inOrder {x : α} : x ∈ inOrder found ↔ ∃ entry ∈ found, x ∈ entry.2 := by
  rw [inOrder, List.mem_flatMap]
  simp only [List.mem_mergeSort]

/-- A name under which nothing is found makes no difference. -/
theorem inOrder_append_nil (found : List (String × List α)) (name : String) :
    inOrder (found ++ [(name, [])]) = inOrder found := by
  obtain ⟨front, back, hmore, hfound⟩ := @exists_mergeSort_append _
    (fun x y : String × List α => decide (x.1 ≤ y.1))
    (fun a b c hab hbc => decide_eq_true (String.le_trans (of_decide_eq_true hab)
      (of_decide_eq_true hbc)))
    (fun a b => by simpa using String.le_total a.1 b.1) found (name, [])
  rw [inOrder, inOrder, hmore, hfound]
  simp

end InOrder

/-! ## Findings that agree -/

/-- If everything that is found afterwards is known, then it is what was found before. -/
def Agree (known : String → Prop) (after before : List String) : Prop :=
  (∀ x ∈ after, known x) → after = before

namespace Agree

variable {known : String → Prop} {after before after' before' : List String}

theorem refl (found : List String) : Agree known found found := fun _ => rfl

theorem append (h : Agree known after before) (h' : Agree known after' before') :
    Agree known (after ++ after') (before ++ before') := by
  intro hknown
  rw [List.forall_mem_append] at hknown
  rw [h hknown.1, h' hknown.2]

theorem flatMap {β : Type} {f g : β → List String} {ys : List β}
    (h : ∀ y ∈ ys, Agree known (f y) (g y)) : Agree known (ys.flatMap f) (ys.flatMap g) := by
  induction ys with
  | nil => exact refl []
  | cons y ys ih =>
    obtain ⟨hy, hys⟩ := List.forall_mem_cons.mp h
    exact hy.append (ih hys)

/-- Findings under the same names agree if those under each name do. -/
theorem inOrder {after before : List (String × List String)}
    (h : List.Forall₂ (fun x y => x.1 = y.1 ∧ Agree known x.2 y.2) after before) :
    Agree known (inOrder after) (inOrder before) := by
  intro hknown
  have hentries : ∀ entry ∈ after, ∀ x ∈ entry.2, known x :=
    fun entry hentry x hx => hknown x (mem_inOrder.mpr ⟨entry, hentry, hx⟩)
  clear hknown
  congr 1
  induction h with
  | nil => rfl
  | cons hfirst _ ih =>
    obtain ⟨hentry, hmore⟩ := List.forall_mem_cons.mp hentries
    rw [ih hmore]
    congr 1
    exact Prod.ext hfirst.1 (hfirst.2 hentry)

theorem ite {c : Prop} [Decidable c] (h : Agree known after before) :
    Agree known (if c then after else []) (if c then before else []) := by
  by_cases hc : c
  · rwa [if_pos hc, if_pos hc]
  · rw [if_neg hc, if_neg hc]
    exact refl []

/-- If nothing that is found afterwards is known, nothing may have been found before. -/
theorem of_forall_not (h : ∀ x ∈ after, ¬ known x) : Agree known after [] := by
  intro hknown
  exact List.eq_nil_iff_forall_not_mem.mpr fun x hx => h x hx (hknown x hx)

theorem forall₂_map_names {f g : String → List String} (names : List String)
    (h : ∀ name, Agree known (f name) (g name)) :
    List.Forall₂ (fun x y => x.1 = y.1 ∧ Agree known x.2 y.2)
      (names.map fun name => (name, f name)) (names.map fun name => (name, g name)) := by
  rw [List.forall₂_map_left_iff, List.forall₂_map_right_iff, List.forall₂_same]
  exact fun name _ => ⟨rfl, h name⟩

/-- What is found under a new name does not count if nothing of it is known. -/
theorem inOrder_append {after before : List (String × List String)} {name : String}
    {new : List String}
    (h : List.Forall₂ (fun x y => x.1 = y.1 ∧ Agree known x.2 y.2) after before)
    (hnew : ∀ x ∈ new, ¬ known x) :
    Agree known (Glob.inOrder (after ++ [(name, new)])) (Glob.inOrder before) := by
  intro hknown
  have hnil : new = [] := by
    refine List.eq_nil_iff_forall_not_mem.mpr fun x hx => hnew x hx (hknown x ?_)
    exact mem_inOrder.mpr ⟨_, List.mem_append_right _ List.mem_cons_self, hx⟩
  rw [hnil, inOrder_append_nil] at hknown ⊢
  exact inOrder h hknown

end Agree

/-! ## Below a directory -/

section Below

variable {f f' : String → String → Bool → List String} {known : String → Prop} {x path : String}

attribute [local simp] below belowNames

theorem belowNames_append (f : String → String → Bool → List String) (path : String)
    (entries more : List (String × FileTree)) :
    belowNames f path (entries ++ more) = belowNames f path entries ++ belowNames f path more := by
  induction entries with
  | nil => rfl
  | cons entry entries ih => simp [ih]

mutual

/-- The path of a directory is known if something below it is. -/
theorem known_of_below (hextend : ∀ path name, known (extend path name) → known path)
    (hback : ∀ next name isDirectory, x ∈ f next name isDirectory → known next) (t : FileTree)
    (path : String) (hx : x ∈ below f path t) : known path := by
  match t with
  | .file text => cases hx
  | .directory entries =>
    obtain ⟨found, hfound, hx⟩ := mem_inOrder.mp hx
    exact known_of_belowNames hextend hback entries path found hfound hx

theorem known_of_belowNames (hextend : ∀ path name, known (extend path name) → known path)
    (hback : ∀ next name isDirectory, x ∈ f next name isDirectory → known next)
    (entries : List (String × FileTree)) (path : String) (found : String × List String)
    (hfound : found ∈ belowNames f path entries) (hx : x ∈ found.2) : known path := by
  match entries with
  | (name, t) :: more =>
    rcases List.mem_cons.mp hfound with rfl | hmore
    · refine hextend path name ?_
      rcases List.mem_append.mp hx with hat | hbelow
      · exact hback _ _ _ hat
      · exact known_of_below hextend hback t _ hbelow
    · exact known_of_belowNames hextend hback more path found hmore hx

end

mutual

/-- Where nothing is new, the findings agree if they do at each name. -/
theorem agree_below (hagree : ∀ next name isDirectory,
    Agree known (f' next name isDirectory) (f next name isDirectory)) (t : FileTree)
    (path : String) : Agree known (below f' path t) (below f path t) := by
  match t with
  | .file text => exact .refl []
  | .directory entries => exact .inOrder (forall₂_belowNames hagree entries path)

theorem forall₂_belowNames (hagree : ∀ next name isDirectory,
    Agree known (f' next name isDirectory) (f next name isDirectory))
    (entries : List (String × FileTree)) (path : String) :
    List.Forall₂ (fun x y => x.1 = y.1 ∧ Agree known x.2 y.2)
      (belowNames f' path entries) (belowNames f path entries) := by
  match entries with
  | [] => exact .nil
  | (name, t) :: more =>
    exact .cons ⟨rfl, (hagree _ _ _).append (agree_below hagree t _)⟩
      (forall₂_belowNames hagree more path)

end

end Below

/-! ## Before and after something is added -/

section Adds

variable {files files' : Files} {place there rest : List String} {name path : String}
  {f f' : String → String → Bool → List String} {t u leaf : FileTree}

/-- On the way to what is added the findings agree as well, because what is added is not known. -/
theorem agree_below_put (hadds : files.Adds files' place name) (hplace : place = there ++ rest)
    (hroom : u.HasRoom rest name)
    (hthere : files'.root.get? there = some (.put leaf (rest ++ [name]) u))
    (hleads : files'.LeadsTo path there)
    (hback : ∀ next other isDirectory, ∀ x ∈ f' next other isDirectory,
      files.Knows files' x → files.Knows files' next)
    (hagree : ∀ next other isDirectory,
      Agree (files.Knows files') (f' next other isDirectory) (f next other isDirectory)) :
    Agree (files.Knows files') (below f' path (.put leaf (rest ++ [name]) u)) (below f path u) := by
  induction rest generalizing u there path with
  | nil =>
    obtain ⟨entries, hentries, hnone⟩ := hroom
    cases hentries
    rw [List.append_nil] at hplace
    subst hplace
    have hnext : ¬ files.Knows files' (extend path name) := by
      refine hadds.not_knows (hleads.extend hthere hadds.root.isName ?_)
      show (Table.get? name (Table.insert name leaf entries)).isSome = true
      rw [Table.get?_insert, if_pos rfl]
      rfl
    rw [List.nil_append, FileTree.put_last hnone, below, belowNames_append]
    refine .inOrder_append (forall₂_belowNames hagree entries path) fun x hx hknown => hnext ?_
    rcases List.mem_append.mp hx with hat | hbelow
    · exact hback _ _ _ x hat hknown
    · exact known_of_below (fun _ _ => hadds.of_extend)
        (fun next other isDirectory hmem => hback next other isDirectory x hmem hknown) _ _ hbelow
  | cons first rest ih =>
    obtain ⟨entries, v, rfl, hv, hinner⟩ := hroom.cons
    obtain ⟨before, after, hentries, hinsert⟩ := Table.exists_of_get? hv
    have hfirst : IsName first := hadds.root.names first (by rw [hplace]; simp)
    obtain ⟨inner, inner', rfl, hput, -⟩ := hinner.exists_put leaf
    rw [List.cons_append, FileTree.put_below hv] at hthere ⊢
    have hnext : files'.LeadsTo (extend path first) (there ++ [first]) := by
      refine hleads.extend hthere hfirst ?_
      rw [Table.get?_insert, if_pos rfl]
      rfl
    have hget : files'.root.get? (there ++ [first])
        = some (.put leaf (rest ++ [name]) (.directory inner)) := by
      rw [FileTree.get?_concat hthere, Table.get?_insert, if_pos rfl]
    have hdown := ih (by rw [hplace, List.append_assoc]; rfl) hinner hget hnext
    rw [below, below, hinsert, hentries, belowNames_append, belowNames_append]
    refine .inOrder (List.rel_append (forall₂_belowNames hagree before path)
      (.cons ⟨rfl, .append ?_ hdown⟩ (forall₂_belowNames hagree after path)))
    rw [hput]
    exact hagree _ _ _

/-- What is found below a path, if it leads anywhere. -/
def belowPath (files : Files) (f : String → String → Bool → List String) (path : String) :
    List String :=
  ((files.find path).toOption.map (below f path)).getD []

theorem known_of_belowPath (hadds : files.Adds files' place name)
    (hback : ∀ next other isDirectory, ∀ x ∈ f' next other isDirectory,
      files.Knows files' x → files.Knows files' next) :
    ∀ x ∈ belowPath files' f' path, files.Knows files' x → files.Knows files' path := by
  intro x hx hknown
  rw [belowPath] at hx
  cases hfind : files'.find path with
  | ok t =>
    rw [hfind] at hx
    exact known_of_below (fun _ _ => hadds.of_extend)
      (fun next other isDirectory hmem => hback next other isDirectory x hmem hknown) t path hx
  | error e =>
    rw [hfind] at hx
    cases hx

theorem agree_belowPath (hadds : files.Adds files' place name)
    (hback : ∀ next other isDirectory, ∀ x ∈ f' next other isDirectory,
      files.Knows files' x → files.Knows files' next)
    (hagree : ∀ next other isDirectory,
      Agree (files.Knows files') (f' next other isDirectory) (f next other isDirectory)) :
    Agree (files.Knows files') (belowPath files' f' path) (belowPath files f path) := by
  by_cases hknown : files.Knows files' path
  · cases hadds.meets hknown with
    | nowhere e before after => rw [belowPath, belowPath, before, after]; exact .refl []
    | file text before after => rw [belowPath, belowPath, before, after]; exact .refl []
    | directory there entries entries' leads before after found found' =>
      rw [belowPath, belowPath, found, found']
      show Agree _ (below f' path (.directory entries')) (below f path (.directory entries))
      rcases hadds.root.get?_eq before after with hsame | ⟨leaf, rest, hplace, hroom, hput⟩
      · rw [hsame]
        exact agree_below hagree _ path
      · rw [hput] at after ⊢
        exact agree_below_put hadds hplace hroom after leads hback hagree
  · obtain ⟨e, hfind⟩ := hadds.exists_error hknown
    have hnone : belowPath files f path = [] := by rw [belowPath, hfind]; rfl
    rw [hnone]
    exact .of_forall_not fun x hx hx' => hknown (known_of_belowPath hadds hback x hx hx')

end Adds

/-! ## Following the parts of a glob -/

section Follow

variable {files files' : Files} {closed : Bool} {place : List String} {name text path : String}
  {parts : List Part} {marks : List Mark}

attribute [local simp] follow

/-- There is something to go on with under a name. -/
def hasNext (files : Files) (path text : String) : Bool :=
  if text = FileTree.selfName || text = FileTree.parentName then files.hasDirectory path
  else files.has (extend path text)

/-- The names by which a directory knows itself and the one above, if they fit. -/
def special (marks : List Mark) : List String :=
  [FileTree.parentName, FileTree.selfName].filter fun name =>
    marks.head? = some (.char '.') && fits marks name.toList

theorem follow_name (files : Files) (closed : Bool) (text : String) (parts : List Part)
    (path : String) : follow files closed (.name text :: parts) path
      = if hasNext files path text then follow files closed parts (extend path text) else [] := by
  rw [follow]
  rfl

theorem follow_mask {entries : List (String × FileTree)}
    (h : files.find path = .ok (.directory entries)) :
    follow files closed (.mask marks :: parts) path
      = (special marks).flatMap (fun name => follow files closed parts (join path name))
        ++ inOrder ((Table.names entries).map fun name =>
          (name, if fits marks name.toList then follow files closed parts (extend path name)
            else [])) := by
  rw [follow, h, Table.names, List.map_map]
  rfl

theorem follow_mask_of_file {text : Option String} (h : files.find path = .ok (.file text)) :
    follow files closed (.mask marks :: parts) path = [] := by simp [h]

theorem follow_mask_of_error {e : FileError} (h : files.find path = .error e) :
    follow files closed (.mask marks :: parts) path = [] := by simp [h]

theorem follow_directories (files : Files) (closed : Bool) (path : String) :
    follow files closed [.directories] path
      = belowPath files (fun next _ isDirectory => if isDirectory then [next] else []) path := by
  rw [follow, belowPath]
  cases files.find path <;> rfl

theorem follow_directories_cons (files : Files) (closed : Bool) (part : Part)
    (parts : List Part) (path : String) : follow files closed (.directories :: part :: parts) path
      = belowPath files (fun next name _ =>
          if part.fitsName name then follow files closed parts next else []) path := by
  rw [follow, belowPath]
  cases files.find path <;> rfl

theorem of_mem_ite {α : Type} {c : Prop} [Decidable c] {p : α → Prop} {found : List α}
    (h : ∀ x ∈ found, p x) : ∀ x ∈ if c then found else [], p x := by
  by_cases hc : c
  · rwa [if_pos hc]
  · rw [if_neg hc]
    exact List.forall_mem_nil _

/-- A path is known if something that is found from it is. -/
theorem knows_of_follow (hadds : files.Adds files' place name) (parts : List Part) (path : String) :
    ∀ x ∈ follow files' closed parts path, files.Knows files' x → files.Knows files' path := by
  match parts with
  | [] =>
    intro x hx hknown
    rw [follow] at hx
    split at hx
    · cases hx
    · rwa [← List.mem_singleton.mp hx]
  | .name text :: parts =>
    rw [follow_name]
    exact of_mem_ite fun x hx hknown =>
      hadds.of_extend (knows_of_follow hadds parts _ x hx hknown)
  | .mask marks :: parts =>
    intro x hx hknown
    cases hfind : files'.find path with
    | error e =>
      rw [follow_mask_of_error hfind] at hx
      cases hx
    | ok t =>
      cases t with
      | file text =>
        rw [follow_mask_of_file hfind] at hx
        cases hx
      | directory entries =>
        rw [follow_mask hfind, List.mem_append, List.mem_flatMap, mem_inOrder] at hx
        rcases hx with ⟨other, -, hx⟩ | ⟨found, hfound, hx⟩
        · exact (knows_of_follow hadds parts _ x hx hknown).of_join
        · obtain ⟨other, -, rfl⟩ := List.mem_map.mp hfound
          exact hadds.of_extend (of_mem_ite (knows_of_follow hadds parts _) x hx hknown)
  | [.directories] =>
    rw [follow_directories]
    exact known_of_belowPath hadds fun next _ _ => of_mem_ite (List.forall_mem_singleton.mpr id)
  | .directories :: part :: parts =>
    rw [follow_directories_cons]
    exact known_of_belowPath hadds fun next _ _ => of_mem_ite (knows_of_follow hadds parts next)

theorem hasNext_of (hadds : files.Adds files' place name)
    (h : hasNext files path text = true) : hasNext files' path text = true := by
  have hfound : ∀ other, files.has other = true → files.Knows files' other := by
    intro other hother
    cases hfind : files.find other with
    | ok u => exact hadds.knows_of_find hfind
    | error e => rw [Files.has, hfind] at hother; cases hother
  have hlisted : ∀ other, files.hasDirectory other = true → files.Knows files' other := by
    intro other hother
    cases hfind : files.find other with
    | ok u => exact hadds.knows_of_find hfind
    | error e => rw [Files.hasDirectory, hfind] at hother; cases hother
  rw [hasNext] at h ⊢
  split
  · rename_i hspecial
    rw [if_pos hspecial] at h
    rwa [(hadds.meets (hlisted path h)).hasDirectory_eq]
  · rename_i hplain
    rw [if_neg hplain] at h
    rwa [(hadds.meets (hfound _ h)).has_eq]

theorem hasNext_eq (hadds : files.Adds files' place name)
    (h : files.Knows files' (extend path text)) :
    hasNext files' path text = hasNext files path text := by
  rw [hasNext, hasNext, (hadds.meets h).has_eq, (hadds.meets (hadds.of_extend h)).hasDirectory_eq]

/-- If everything that a glob finds afterwards is known, then it is what it found before. -/
theorem agree_follow (hadds : files.Adds files' place name) (parts : List Part) (path : String) :
    Agree (files.Knows files') (follow files' closed parts path)
      (follow files closed parts path) := by
  match parts with
  | [] =>
    by_cases hknown : files.Knows files' path
    · rw [follow, follow, (hadds.meets hknown).hasDirectory_eq]
      exact .refl _
    · obtain ⟨e, hfind⟩ := hadds.exists_error hknown
      have hnot : files.hasDirectory path = false := by rw [Files.hasDirectory, hfind]; rfl
      cases closed with
      | true =>
        have hnone : follow files true [] path = [] := by rw [follow, hnot]; rfl
        rw [hnone]
        exact .of_forall_not fun x hx hx' => hknown (knows_of_follow hadds [] path x hx hx')
      | false =>
        rw [follow, follow]
        exact .refl [path]
  | .name text :: parts =>
    rw [follow_name, follow_name]
    by_cases hnext : hasNext files path text = true
    · rw [if_pos hnext, if_pos (hasNext_of hadds hnext)]
      exact agree_follow hadds parts _
    · rw [if_neg hnext]
      refine .of_forall_not fun x hx hknown => hnext ?_
      split at hx
      · rename_i hafter
        rwa [← hasNext_eq hadds (knows_of_follow hadds parts _ x hx hknown)]
      · cases hx
  | .mask marks :: parts =>
    by_cases hknown : files.Knows files' path
    · cases hadds.meets hknown with
      | nowhere e before after =>
        rw [follow_mask_of_error after, follow_mask_of_error before]
        exact .refl []
      | file text before after =>
        rw [follow_mask_of_file after, follow_mask_of_file before]
        exact .refl []
      | directory there entries entries' leads before after found found' =>
        rw [follow_mask found', follow_mask found]
        refine .append (.flatMap fun other _ => agree_follow hadds parts _) ?_
        have hnames := Agree.forall₂_map_names (Table.names entries) fun other =>
          (agree_follow hadds parts (extend path other)).ite (c := fits marks other.toList)
        rcases hadds.names_eq before after with hsame | ⟨rfl, hnew⟩
        · rw [hsame]
          exact .inOrder hnames
        · have hnext : ¬ files.Knows files' (extend path name) := by
            refine hadds.not_knows (leads.extend after hadds.root.isName ?_)
            rw [Table.isSome_get?_iff, hnew]
            exact List.mem_append_right _ List.mem_cons_self
          rw [hnew, List.map_append]
          exact .inOrder_append hnames fun x hx hx' =>
            hnext (of_mem_ite (knows_of_follow hadds parts _) x hx hx')
    · obtain ⟨e, hfind⟩ := hadds.exists_error hknown
      have hnone : follow files closed (.mask marks :: parts) path = [] :=
        follow_mask_of_error hfind
      rw [hnone]
      exact .of_forall_not fun x hx hx' => hknown (knows_of_follow hadds _ path x hx hx')
  | [.directories] =>
    rw [follow_directories, follow_directories]
    exact agree_belowPath hadds (fun next _ _ => of_mem_ite (List.forall_mem_singleton.mpr id))
      fun next _ _ => .refl _
  | .directories :: part :: parts =>
    rw [follow_directories_cons, follow_directories_cons]
    exact agree_belowPath hadds
      (fun next _ _ => of_mem_ite (knows_of_follow hadds parts next))
      fun next _ _ => .ite (agree_follow hadds parts next)

end Follow

end Glob
end AliasCheck
