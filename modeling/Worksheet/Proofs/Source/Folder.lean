import Mathlib.Data.List.Infix
import Worksheet.Source.Folder

/-! # Paths in folders

A path is its names with slashes between them, and leads to a place. What is opened is the file at
the place that the path leads to, and a file of a sound folder can be opened by the path to its
place. All other paths are refused, for one of four causes.
-/
namespace Worksheet.Folder

variable {folder : Folder} {place : Option (List Text)} {names p : List Text} {path name : Text}
  {bytes : Bytes} {fault : OpenFault} {node : Node} {c : Char}

section Names

theorem namesAfter_ne_nil (name path : Text) : namesAfter name path ≠ [] := by
  fun_induction namesAfter name path with
  | case1 | case2 => exact List.cons_ne_nil _ _
  | case3 name c rest _ ih => exact ih

theorem intercalate_cons (name : Text) {names : List Text} (h : names ≠ []) :
    ['/'].intercalate (name :: names) = name ++ '/' :: ['/'].intercalate names := by
  obtain ⟨next, rest, rfl⟩ := List.exists_cons_of_ne_nil h
  rw [List.intercalate_cons_cons, List.append_assoc]
  rfl

theorem intercalate_namesAfter (name path : Text) :
    ['/'].intercalate (namesAfter name path) = name.reverse ++ path := by
  fun_induction namesAfter name path with
  | case1 name => simp
  | case2 name rest ih => rw [intercalate_cons _ (namesAfter_ne_nil [] rest), ih]; rfl
  | case3 name c rest _ ih => simpa using ih

theorem intercalate_namesOf (path : Text) : ['/'].intercalate (namesOf path) = path :=
  intercalate_namesAfter [] path

theorem namesAfter_append (h : '/' ∉ name) (before rest : Text) :
    namesAfter before (name ++ rest) = namesAfter (name.reverse ++ before) rest := by
  induction name generalizing before with
  | nil => rfl
  | cons c name ih =>
    obtain ⟨hc, hname⟩ := List.ne_and_not_mem_of_not_mem_cons h
    rw [List.cons_append, namesAfter, if_neg hc.symm, ih hname, List.reverse_cons,
      List.append_assoc, List.singleton_append]

theorem namesOf_intercalate (hne : names ≠ []) (h : ∀ name ∈ names, '/' ∉ name) :
    namesOf (['/'].intercalate names) = names := by
  induction names with
  | nil => exact absurd rfl hne
  | cons name names ih =>
    obtain ⟨hname, hnames⟩ := List.forall_mem_cons.mp h
    rcases eq_or_ne names [] with rfl | hne
    · have hread := namesAfter_append hname [] []
      simpa [namesOf, namesAfter] using hread
    · rw [intercalate_cons name hne, namesOf, namesAfter_append hname, namesAfter, if_pos rfl]
      rw [List.append_nil, List.reverse_reverse]
      exact congrArg (name :: ·) (ih hne hnames)

theorem exists_of_mem_namesAfter {before : Text} (h : c ∈ before ∨ c ∈ path) :
    c = '/' ∨ ∃ name ∈ namesAfter before path, c ∈ name := by
  fun_induction namesAfter before path with
  | case1 before =>
    exact .inr ⟨_, List.mem_cons_self, List.mem_reverse.mpr (h.resolve_right List.not_mem_nil)⟩
  | case2 before rest ih =>
    rcases h with h | h
    · exact .inr ⟨_, List.mem_cons_self, List.mem_reverse.mpr h⟩
    · rcases List.mem_cons.mp h with rfl | h
      · exact .inl rfl
      · refine (ih (.inr h)).imp_right fun ⟨name, hname, hc⟩ => ?_
        exact ⟨name, List.mem_cons_of_mem _ hname, hc⟩
  | case3 before d rest _ ih =>
    rcases h with h | h
    · exact ih (.inl (List.mem_cons_of_mem _ h))
    · rcases List.mem_cons.mp h with rfl | h
      · exact ih (.inl List.mem_cons_self)
      · exact ih (.inr h)

end Names

section Nodes

def members (folder : Folder) : List (List Text) :=
  folder.files.map (·.1) ++ folder.folders

theorem mem_files_of_node? (h : folder.node? p = some (.file bytes)) :
    (p, bytes) ∈ folder.files := by
  unfold node? at h
  split at h
  · next file hfile =>
    have hplace := List.find?_some hfile
    obtain rfl := Node.file.inj (Option.some.inj h)
    rw [← of_decide_eq_true hplace]
    exact List.mem_of_find?_eq_some hfile
  · split at h <;> cases h

theorem exists_member_of_node? (h : folder.node? p = some node) :
    ∃ m ∈ folder.members, p <+: m := by
  unfold node? at h
  split at h
  · next file hfile =>
    have hplace := List.find?_some hfile
    have hmem := List.mem_of_find?_eq_some hfile
    refine ⟨file.1, List.mem_append_left _ (List.mem_map_of_mem hmem), ?_⟩
    rw [of_decide_eq_true hplace]
  · split at h
    · next hany =>
      simp only [Bool.or_eq_true, List.any_eq_true, List.isPrefixOf_iff_prefix] at hany
      rcases hany with ⟨file, hfile, hp⟩ | ⟨m, hm, hp⟩
      · exact ⟨file.1, List.mem_append_left _ (List.mem_map_of_mem hfile), hp⟩
      · exact ⟨m, List.mem_append_right _ hm, hp⟩
    · cases h

end Nodes

section Walk

def placeAfter : Option (List Text) → List Text → Option (List Text)
  | place, [] => place
  | place, name :: rest =>
    if stays name then placeAfter place rest
    else if name = ['.', '.'] then
      placeAfter (place.bind fun p => if p.isEmpty then none else some p.dropLast) rest
    else placeAfter (place.map (· ++ [name])) rest

theorem placeAfter_name (hstays : ¬ stays name = true) (hup : name ≠ ['.', '.']) :
    placeAfter place (name :: names) = placeAfter (place.map (· ++ [name])) names := by
  rw [placeAfter, if_neg hstays, if_neg hup]

theorem placeAfter_of_not_up (p : List Text) (h : ['.', '.'] ∉ names) :
    placeAfter (some p) names = some (p ++ names.filter (!stays ·)) := by
  induction names generalizing p with
  | nil => simp [placeAfter]
  | cons name names ih =>
    obtain ⟨hup, hnames⟩ := List.ne_and_not_mem_of_not_mem_cons h
    cases hstays : stays name with
    | true => simp [placeAfter, hstays, ih p hnames]
    | false => simp [placeAfter, hstays, hup.symm, ih (p ++ [name]) hnames]

/-- A walk that ends well ends with the file that its names lead to. -/
theorem mem_files_of_walk (h : folder.walk place names = .ok bytes) :
    ∃ p, placeAfter place names = some p ∧ (p, bytes) ∈ folder.files := by
  fun_induction walk folder place names with
  | case1 | case4 | case5 | case6 | case9 => cases h
  | case2 place name rest hstays ih =>
    rw [placeAfter, if_pos hstays]
    exact ih h
  | case3 place rest hstays ih =>
    rw [placeAfter, if_neg hstays, if_pos rfl]
    exact ih h
  | case7 place name rest hstays hup _ p hp _ ih =>
    rw [placeAfter_name hstays hup, hp]
    exact ih h
  | case8 place name rest hstays hup _ p hp contents hnode hrest =>
    obtain rfl := Except.ok.inj h
    obtain rfl := List.isEmpty_iff.mp hrest
    rw [placeAfter_name hstays hup, hp]
    exact ⟨p, rfl, mem_files_of_node? hnode⟩

theorem exists_member_of_map (hp : place.map (· ++ [name]) = some p)
    (hnode : folder.node? p = some node) : ∃ m ∈ folder.members, name ∈ m := by
  obtain ⟨q, -, rfl⟩ := Option.map_eq_some_iff.mp hp
  obtain ⟨m, hm, hprefix⟩ := exists_member_of_node? hnode
  exact ⟨m, hm, hprefix.subset (by simp)⟩

/-- Each name of such a walk leads nowhere else, or up, or is on the way to a member. -/
theorem exists_member_of_walk (h : folder.walk place names = .ok bytes) (hname : name ∈ names) :
    stays name = true ∨ name = ['.', '.'] ∨ ∃ m ∈ folder.members, name ∈ m := by
  fun_induction walk folder place names with
  | case1 | case4 | case5 | case6 | case9 => cases h
  | case2 place first rest hstays ih =>
    rcases List.mem_cons.mp hname with rfl | hname
    · exact .inl hstays
    · exact ih h hname
  | case3 place rest hstays ih =>
    rcases List.mem_cons.mp hname with rfl | hname
    · exact .inr (.inl rfl)
    · exact ih h hname
  | case7 place first rest hstays hup _ p hp hnode ih =>
    rcases List.mem_cons.mp hname with rfl | hname
    · exact .inr (.inr (exists_member_of_map hp hnode))
    · exact ih h hname
  | case8 place first rest hstays hup _ p hp contents hnode hrest =>
    obtain rfl := List.isEmpty_iff.mp hrest
    rw [List.mem_singleton.mp hname]
    exact .inr (.inr (exists_member_of_map hp hnode))

/-- What a walk can fail with. -/
def causes : List OpenFault := [.notFound, .notAFolder, .isAFolder, .nameTooLong]

theorem mem_causes_of_walk (h : folder.walk place names = .error fault) : fault ∈ causes := by
  fun_induction walk folder place names with
  | case1 | case4 | case5 | case6 | case9 =>
    obtain rfl := Except.error.inj h
    decide
  | case2 _ _ _ _ ih | case3 _ _ _ ih => exact ih h
  | case7 _ _ _ _ _ _ _ _ _ ih => exact ih h
  | case8 => cases h

end Walk

section Open

/-- The place that a path leads to. -/
def resolve (path : Text) : Option (List Text) :=
  placeAfter (if path.head? = some '/' then none else some []) (namesOf path)

theorem resolve_eq_placeOf (hpath : path.head? ≠ some '/') (h : ['.', '.'] ∉ namesOf path) :
    resolve path = some (placeOf path) := by
  rw [resolve, if_neg hpath, placeAfter_of_not_up [] h]
  rfl

theorem mem_files_of_openFile (h : folder.openFile path = .ok bytes) :
    ∃ p, resolve path = some p ∧ (p, bytes) ∈ folder.files := by
  unfold openFile at h
  split at h
  · cases h
  split at h
  · cases h
  exact mem_files_of_walk h

theorem mem_causes_of_openFile (h : folder.openFile path = .error fault) : fault ∈ causes := by
  unfold openFile at h
  split at h
  · obtain rfl := Except.error.inj h
    decide
  split at h
  · obtain rfl := Except.error.inj h
    decide
  exact mem_causes_of_walk h

/-- Where no member has a NUL in its names, nothing but a path can be opened. -/
theorem isPath_of_openFile (hm : ∀ m ∈ folder.members, ∀ name ∈ m, isPath name = true)
    (h : folder.openFile path = .ok bytes) : isPath path = true := by
  unfold openFile at h
  split at h
  · cases h
  split at h
  · cases h
  refine decide_eq_true fun hnul => ?_
  have hnames : '\x00' = '/' ∨ ∃ name ∈ namesAfter [] path, '\x00' ∈ name :=
    exists_of_mem_namesAfter (.inr hnul)
  obtain hc | ⟨name, hname, hc⟩ := hnames
  · exact absurd hc (by decide)
  rcases exists_member_of_walk h hname with hstays | rfl | ⟨m, hmem, hin⟩
  · unfold stays at hstays
    rcases (Bool.or_eq_true _ _).mp hstays with hnil | hdot
    · rw [of_decide_eq_true hnil] at hc
      cases hc
    · rw [of_decide_eq_true hdot] at hc
      exact absurd hc (by decide)
  · exact absurd hc (by decide)
  · exact of_decide_eq_true (hm m hmem name hin) hc

end Open

section Sound

/-- Names that lead on by themselves. -/
structure IsName (name : Text) : Prop where
  leads : stays name = false
  not_up : name ≠ ['.', '.']
  no_slash : '/' ∉ name
  size_le : size name ≤ maxNameSize

/-- Every member can be named, nothing is inside a file, and no place has two files. -/
structure Sound (folder : Folder) : Prop where
  names : ∀ m ∈ folder.members, ∀ name ∈ m, IsName name
  leaf : ∀ file ∈ folder.files, ∀ m ∈ folder.members, file.1 <+: m → m = file.1
  unique : ∀ file ∈ folder.files, ∀ other ∈ folder.files, other.1 = file.1 → other = file

theorem Sound.node?_file (h : folder.Sound) (hmem : (p, bytes) ∈ folder.files) :
    folder.node? p = some (.file bytes) := by
  unfold node?
  cases hfind : folder.files.find? (·.1 = p) with
  | none =>
    have hother := List.find?_eq_none.mp hfind _ hmem
    simp at hother
  | some file =>
    have hplace := List.find?_some hfind
    obtain rfl := h.unique _ hmem file (List.mem_of_find?_eq_some hfind) (of_decide_eq_true hplace)
    rfl

theorem Sound.node?_folder (h : folder.Sound) (hmem : (p ++ name :: names, bytes) ∈ folder.files) :
    folder.node? p = some .folder := by
  have hmember : p ++ name :: names ∈ folder.members :=
    List.mem_append_left _ (List.mem_map_of_mem hmem)
  unfold node?
  cases hfind : folder.files.find? (·.1 = p) with
  | none =>
    have hany : folder.files.any (p.isPrefixOf ·.1) = true :=
      List.any_eq_true.mpr ⟨_, hmem, List.isPrefixOf_iff_prefix.mpr (List.prefix_append p _)⟩
    simp [hany]
  | some file =>
    have hplace := List.find?_some hfind
    obtain rfl := of_decide_eq_true hplace
    have heq := h.leaf file (List.mem_of_find?_eq_some hfind) _ hmember (List.prefix_append _ _)
    simp at heq

theorem Sound.walk_of_mem (h : folder.Sound) (hmem : (p ++ names, bytes) ∈ folder.files)
    (hne : names ≠ []) : folder.walk (some p) names = .ok bytes := by
  induction names generalizing p with
  | nil => exact absurd rfl hne
  | cons name rest ih =>
    have hmem' : (p ++ [name] ++ rest, bytes) ∈ folder.files := by simpa using hmem
    have hname : IsName name := h.names _ (List.mem_append_left _ (List.mem_map_of_mem hmem)) name
      (by simp)
    rw [walk, if_neg (by simp [hname.leads]), if_neg hname.not_up, if_neg (by
      have hsize := hname.size_le
      omega)]
    dsimp only [Option.map_some]
    cases rest with
    | nil =>
      rw [List.append_nil] at hmem'
      rw [h.node?_file hmem']
      rfl
    | cons next rest =>
      rw [h.node?_folder hmem']
      exact ih hmem' (List.cons_ne_nil _ _)

theorem IsName.exists_intercalate_eq (h : IsName name) (names : List Text) :
    ∃ c rest, ['/'].intercalate (name :: names) = c :: rest ∧ c ≠ '/' := by
  cases name with
  | nil => exact Bool.noConfusion h.leads
  | cons c name =>
    have hc : c ≠ '/' := (List.ne_and_not_mem_of_not_mem_cons h.no_slash).1.symm
    cases names with
    | nil => exact ⟨c, name, List.append_nil _, hc⟩
    | cons next names => exact ⟨c, _, intercalate_cons _ (List.cons_ne_nil _ _), hc⟩

/-- A file of a sound folder is opened by the path to its place. -/
theorem Sound.openFile_of_mem (h : folder.Sound) (hmem : (p, bytes) ∈ folder.files) (hne : p ≠ [])
    (hsize : size (['/'].intercalate p) ≤ maxPathSize) :
    folder.openFile (['/'].intercalate p) = .ok bytes := by
  have hnames := h.names p (List.mem_append_left _ (List.mem_map_of_mem hmem))
  have hread := namesOf_intercalate hne fun name hname => (hnames name hname).no_slash
  obtain ⟨name, names, rfl⟩ := List.exists_cons_of_ne_nil hne
  obtain ⟨c, rest, hpath, hc⟩ := (hnames name List.mem_cons_self).exists_intercalate_eq names
  rw [hpath] at hsize hread ⊢
  unfold openFile
  rw [if_neg (by simp), if_neg (by omega), if_neg (by simpa using hc), hread]
  exact h.walk_of_mem hmem hne

end Sound

end Worksheet.Folder
