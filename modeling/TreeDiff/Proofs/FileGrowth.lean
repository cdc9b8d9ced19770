/-
# Growing file trees

Making directories and adding to files takes nothing away: what is a directory stays one, and a file
keeps what it holds.  A file that has been opened therefore stays within reach, and what is added to
it stands behind what was there.
-/
import TreeDiff.Files.Tree
import TreeDiff.Proofs.Reading

namespace TreeDiff.Files

variable {before middle after files : Files} {p : Path} {content : List UInt8}

/-- The content of the file under names from the root; empty where no file stands. -/
def contentAt (files : Files) (names : List String) : List UInt8 :=
  match files.at? names with
  | some (.file content) => content
  | _ => []

/-- One file tree has grown out of another. -/
structure Grows (before after : Files) : Prop where
  workingDirectory : after.workingDirectory = before.workingDirectory
  directory : ∀ names, before.at? names = some .directory → after.at? names = some .directory
  file : ∀ names content, before.at? names = some (.file content) →
    ∃ more, after.at? names = some (.file (content ++ more))

namespace Grows

lemma refl (files : Files) : files.Grows files :=
  ⟨rfl, fun _ h => h, fun _ content h => ⟨[], by rw [h, List.append_nil]⟩⟩

lemma trans (h : before.Grows middle) (h' : middle.Grows after) : before.Grows after where
  workingDirectory := h'.workingDirectory.trans h.workingDirectory
  directory names hnames := h'.directory names (h.directory names hnames)
  file names content hnames := by
    obtain ⟨more, hmore⟩ := h.file names content hnames
    obtain ⟨rest, hrest⟩ := h'.file names _ hmore
    exact ⟨more ++ rest, by rw [hrest, List.append_assoc]⟩

end Grows

/-! ## Putting -/

lemma lookup_entry (names other : List String) (node : FileNode)
    (rest : List (List String × FileNode)) :
    ((names, node) :: rest).lookup other =
      if other = names then some node else rest.lookup other := by
  by_cases h : other = names
  · simp [h]
  · rw [List.lookup_cons, beq_false_of_ne h, if_neg h]

lemma lookup_assocPut (names other : List String) (node : FileNode)
    (entries : List (List String × FileNode)) :
    (put.assocPut names node entries).lookup other =
      if other = names then some node else entries.lookup other := by
  induction entries with
  | nil => exact lookup_entry names other node []
  | cons entry rest ih =>
    obtain ⟨n, old⟩ := entry
    rw [put.assocPut]
    by_cases hn : n = names
    · subst hn
      rw [if_pos rfl, lookup_entry, lookup_entry]
      split <;> rfl
    · rw [if_neg hn, lookup_entry, lookup_entry, ih]
      by_cases h : other = n
      · rw [if_pos h, if_pos h, if_neg (h ▸ hn)]
      · rw [if_neg h, if_neg h]

lemma at?_put {names : List String} (hnames : names ≠ []) (node : FileNode) (other : List String) :
    (files.put names node).at? other = if other = names then some node else files.at? other := by
  rw [at?, at?]
  cases other with
  | nil => rw [if_neg hnames.symm]; rfl
  | cons name rest => exact lookup_assocPut names (name :: rest) node files.entries

/-- A place other than the root, where nothing stands. -/
lemma ne_nil_of_at?_eq_none {names : List String} (h : files.at? names = none) : names ≠ [] := by
  rintro rfl
  cases h

lemma ne_nil_of_at?_eq_file {names : List String} (h : files.at? names = some (.file content)) :
    names ≠ [] := by
  rintro rfl
  cases h

lemma grows_put_new {names : List String} (node : FileNode) (h : files.at? names = none) :
    files.Grows (files.put names node) := by
  have hne := ne_nil_of_at?_eq_none h
  -- whatever stands somewhere stands elsewhere than at the new place
  refine ⟨rfl, fun other hother => ?_, fun other content hother => ⟨[], ?_⟩⟩
  · rw [at?_put hne, if_neg (by rintro rfl; simp [h] at hother)]
    exact hother
  · rw [at?_put hne, if_neg (by rintro rfl; simp [h] at hother), List.append_nil]
    exact hother

lemma grows_put_append {names : List String} {old : List UInt8}
    (h : files.at? names = some (.file old)) :
    files.Grows (files.put names (.file (old ++ content))) := by
  have hne := ne_nil_of_at?_eq_file h
  refine ⟨rfl, fun other hother => ?_, fun other held hother => ?_⟩
  · rw [at?_put hne, if_neg (by rintro rfl; simp [h] at hother)]
    exact hother
  · rw [at?_put hne]
    by_cases heq : other = names
    · subst heq
      rw [h] at hother
      cases hother
      exact ⟨content, if_pos rfl⟩
    · exact ⟨[], by rw [if_neg heq, hother, List.append_nil]⟩

/-! ## Following names -/

lemma follow_eq_ok {here names there : List String} (h : files.follow here names = .ok there) :
    there = names.foldl
      (fun here name => if name = ".." then here.dropLast else here ++ [name]) here := by
  induction names generalizing here with
  | nil =>
    cases h
    rfl
  | cons name rest ih =>
    rw [follow] at h
    split at h
    · cases h
    · cases h
    · exact ih h

lemma Grows.follow (hgrows : before.Grows after) {here names there : List String}
    (h : before.follow here names = .ok there) : after.follow here names = .ok there := by
  induction names generalizing here with
  | nil => exact h
  | cons name rest ih =>
    rw [Files.follow] at h ⊢
    split at h
    · cases h
    · cases h
    · next hhere =>
      -- only directories are passed on the way, and they are still there
      rw [hgrows.directory here hhere]
      exact ih h

lemma locate_eq_ok {names : List String} (h : files.locate p = .ok names) :
    names = files.namesOf p :=
  follow_eq_ok h

lemma Grows.locate (hgrows : before.Grows after) {names : List String}
    (h : before.locate p = .ok names) : after.locate p = .ok names := by
  rw [Files.locate, hgrows.workingDirectory]
  exact hgrows.follow h

lemma Grows.namesOf_eq (hgrows : before.Grows after) (p : Path) :
    after.namesOf p = before.namesOf p := by
  rw [namesOf, namesOf, hgrows.workingDirectory]

/-! ## Making directories -/

/-- Directories are made beside everything that is there, and no file is touched. -/
lemma make_eq_ok {here names : List String}
    (h : makeDirectories.make files here names = .ok after) :
    files.Grows after ∧ ∀ names, after.contentAt names = files.contentAt names := by
  induction names generalizing files here with
  | nil =>
    cases h
    exact ⟨.refl _, fun _ => rfl⟩
  | cons name rest ih =>
    rw [makeDirectories.make] at h
    generalize (if name = ".." then here.dropLast else here ++ [name]) = next at h
    split at h
    · exact ih h
    · cases h
    · next hnext =>
      obtain ⟨hgrows, hcontent⟩ := ih h
      -- the directory is made where nothing stood, so it hides no content
      refine ⟨(grows_put_new .directory hnext).trans hgrows, fun names => ?_⟩
      rw [hcontent, contentAt, contentAt, at?_put (ne_nil_of_at?_eq_none hnext)]
      by_cases heq : names = next
      · rw [if_pos heq, heq, hnext]
      · rw [if_neg heq]

/-! ## Adding to files -/

/-- A file stands at a path. -/
structure IsOpen (files : Files) (p : Path) : Prop where
  locate : files.locate p = .ok (files.namesOf p)
  file : ∃ content, files.at? (files.namesOf p) = some (.file content)

lemma IsOpen.of_grows (h : before.IsOpen p) (hgrows : before.Grows after) : after.IsOpen p := by
  obtain ⟨content, hcontent⟩ := h.file
  obtain ⟨more, hmore⟩ := hgrows.file _ content hcontent
  refine ⟨?_, content ++ more, ?_⟩
  · rw [hgrows.namesOf_eq]
    exact hgrows.locate h.locate
  · rw [hgrows.namesOf_eq]
    exact hmore

/-- What is added to a file stands behind what was there, nothing else changes, and the file is
there. -/
lemma append_eq_ok (h : files.append p content = .ok after) :
    files.Grows after ∧ after.IsOpen p ∧ ∀ names, after.contentAt names =
      files.contentAt names ++ if files.namesOf p = names then content else [] := by
  rw [append] at h
  obtain ⟨place, hplace, h⟩ := exists_of_bind_eq_ok h
  have hnames := locate_eq_ok hplace
  subst hnames
  -- a new file and an old one differ in what was there alone
  suffices hput : ∀ old, files.contentAt (files.namesOf p) = old →
      files.namesOf p ≠ [] → files.Grows (files.put (files.namesOf p) (.file (old ++ content))) →
      after = files.put (files.namesOf p) (.file (old ++ content)) →
      files.Grows after ∧ after.IsOpen p ∧ ∀ names, after.contentAt names =
        files.contentAt names ++ if files.namesOf p = names then content else [] by
    split at h
    · cases h
    · next old hold =>
      cases h
      refine hput old ?_ (ne_nil_of_at?_eq_file hold) (grows_put_append hold) rfl
      rw [contentAt, hold]
    · next hnone =>
      split at h
      · cases h
        refine hput [] ?_ (ne_nil_of_at?_eq_none hnone) (grows_put_new _ hnone) rfl
        rw [contentAt, hnone]
      · cases h
      · cases h
  rintro old hold hne hgrows rfl
  have hat : ∀ other, (files.put (files.namesOf p) (.file (old ++ content))).at? other =
      if other = files.namesOf p then some (.file (old ++ content)) else files.at? other :=
    at?_put hne _
  refine ⟨hgrows, ⟨hgrows.locate hplace, old ++ content, ?_⟩, fun names => ?_⟩
  · rw [hgrows.namesOf_eq, hat, if_pos rfl]
  · rw [contentAt, hat]
    by_cases heq : files.namesOf p = names
    · subst heq
      rw [if_pos rfl, if_pos rfl, hold]
    · rw [if_neg (Ne.symm heq), if_neg heq, List.append_nil, contentAt]

/-- A file that is open takes what is added to it. -/
lemma IsOpen.exists_append (h : files.IsOpen p) (content : List UInt8) :
    ∃ after, files.append p content = .ok after := by
  obtain ⟨old, hold⟩ := h.file
  refine ⟨files.put (files.namesOf p) (.file (old ++ content)), ?_⟩
  rw [append, h.locate]
  simp [bind, Except.bind, pure, Except.pure, hold]

end TreeDiff.Files
