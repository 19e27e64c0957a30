import Mathlib
import Rulebook.Proofs.CheckedFiles
import Rulebook.Proofs.Selected

/-!
# Directories expanded into paths

A directory among some paths stands for what the patterns select below it, each path once and in
order, and a file for itself. Main statement: what stands for a directory are the files and
directories that a pattern selects, so it is the files alone just if no directory has a name that is
looked for. A reading of such paths can meet no other fault of access than a directory in the place
of a file.
-/

namespace Rulebook

/-! ### The order of paths -/

namespace Path

theorem namesPrecede_cons_iff {m n : String} {ms ns : List String} :
    namesPrecede (m :: ms) (n :: ns) = true ↔ m < n ∨ m = n ∧ namesPrecede ms ns = true := by
  simp [namesPrecede]

theorem namesPrecede_trans {a b c : List String} (hab : namesPrecede a b = true)
    (hbc : namesPrecede b c = true) : namesPrecede a c = true := by
  induction a generalizing b c with
  | nil => rfl
  | cons l ls ih =>
    cases b with
    | nil => cases hab
    | cons m ms =>
      cases c with
      | nil => cases hbc
      | cons n ns =>
        rw [namesPrecede_cons_iff] at hab hbc ⊢
        rcases hab with hlm | ⟨rfl, hab⟩
        · rcases hbc with hmn | ⟨rfl, -⟩
          · exact .inl (String.lt_trans hlm hmn)
          · exact .inl hlm
        · exact hbc.imp_right fun ⟨heq, hbc⟩ => ⟨heq, ih hab hbc⟩

theorem namesPrecede_total (a b : List String) :
    (namesPrecede a b || namesPrecede b a) = true := by
  induction a generalizing b with
  | nil => rfl
  | cons m ms ih =>
    cases b with
    | nil => rfl
    | cons n ns =>
      rw [Bool.or_eq_true, namesPrecede_cons_iff, namesPrecede_cons_iff]
      by_cases hmn : m < n
      · exact .inl (.inl hmn)
      · by_cases hnm : n < m
        · exact .inr (.inl hnm)
        · obtain rfl := String.le_antisymm (String.not_lt.1 hnm) (String.not_lt.1 hmn)
          exact (Bool.or_eq_true _ _ ▸ ih ns).imp (fun h => .inr ⟨rfl, h⟩) fun h => .inr ⟨rfl, h⟩

theorem precedes_trans (p q r : Path) (hpq : p.precedes q = true) (hqr : q.precedes r = true) :
    p.precedes r = true :=
  namesPrecede_trans hpq hqr

theorem precedes_total (p q : Path) : (p.precedes q || q.precedes p) = true :=
  namesPrecede_total p.names q.names

theorem below_injective (p : Path) : Function.Injective p.below := fun _ _ h =>
  List.append_cancel_left (congrArg Path.names h)

end Path

namespace Glob

/-! ### What is listed -/

theorem nodup_eraseDups {α : Type} [BEq α] [LawfulBEq α] (xs : List α) : xs.eraseDups.Nodup := by
  induction xs using List.reverseRecOn with
  | nil => exact List.nodup_nil
  | append_singleton xs x ih =>
    rw [List.eraseDups_append]
    refine List.nodup_append.2 ⟨ih, ?_, ?_⟩
    · by_cases hx : x ∈ xs <;> simp [List.removeAll, hx, List.eraseDups_cons]
    · rintro a ha b hb rfl
      have hmem := List.mem_eraseDups.1 hb
      simp [List.removeAll, List.mem_eraseDups.1 ha] at hmem

variable {patterns : List String} {parts : List (List Part)}

theorem mem_matching_iff (here : Place) (p q : Path) :
    q ∈ matching parts here p ↔
      ∃ names r, q = p.below names ∧ ∃ pattern ∈ parts, Selects pattern here names r := by
  simp only [matching, List.mem_mergeSort, List.mem_map, List.mem_eraseDups, List.mem_flatMap,
    mem_select_iff]
  constructor
  · rintro ⟨names, ⟨pattern, hpattern, r, h⟩, rfl⟩
    exact ⟨names, r, rfl, pattern, hpattern, h⟩
  · rintro ⟨names, r, rfl, pattern, hpattern, h⟩
    exact ⟨names, ⟨pattern, hpattern, r, h⟩, rfl⟩

theorem nodup_matching (here : Place) (p : Path) : (matching parts here p).Nodup :=
  (List.mergeSort_perm ..).nodup_iff.2 ((nodup_eraseDups _).map p.below_injective)

theorem pairwise_matching (here : Place) (p : Path) :
    (matching parts here p).Pairwise fun a b => a.precedes b = true :=
  List.pairwise_mergeSort Path.precedes_trans Path.precedes_total _

/-- One of the patterns selects a place from another, along some names. -/
def Picks (patterns : List String) (here : Place) (names : List String) (r : Place) : Prop :=
  ∃ pattern ∈ patterns, ∃ parts, partsOf? pattern = .ok parts ∧ Selects parts here names r

theorem picks_iff (h : patterns.mapM partsOf? = .ok parts) (here : Place) (names : List String)
    (r : Place) :
    Picks patterns here names r ↔ ∃ pattern ∈ parts, Selects pattern here names r := by
  rw [mapM_eq_ok_iff] at h
  unfold Picks
  induction h with
  | nil => simp
  | cons hfirst _ ih =>
    simp only [List.exists_mem_cons_iff, ih, hfirst, Except.ok.injEq, exists_eq_left']

theorem Picks.follow {here r : Place} {names : List String} (h : Picks patterns here names r)
    (hhere : here.Sound) : here.follow names = .ok r := by
  obtain ⟨pattern, -, parts, -, h⟩ := h
  exact h.follow hhere

theorem picks_names_iff (hnames : ∀ pattern ∈ patterns, IsName pattern) (here : Place)
    (names : List String) (r : Place) :
    Picks patterns here names r ↔
      ∃ above name, names = above ++ [name] ∧ here.Descends names r ∧
        ∃ pattern ∈ patterns, Stands (piecesOf pattern.toList) name.toList := by
  constructor
  · rintro ⟨pattern, hpattern, parts, hparts, h⟩
    rw [partsOf?_of_isName (hnames pattern hpattern)] at hparts
    cases hparts
    obtain ⟨above, name, heq, hdown, hname⟩ := (selects_name_iff ..).1 h
    exact ⟨above, name, heq, hdown, pattern, hpattern, hname⟩
  · rintro ⟨above, name, heq, hdown, pattern, hpattern, hname⟩
    exact ⟨pattern, hpattern, _, partsOf?_of_isName (hnames pattern hpattern),
      (selects_name_iff ..).2 ⟨above, name, heq, hdown, hname⟩⟩

theorem Picks.descends {here r : Place} {names : List String} (h : Picks patterns here names r)
    (hdown : ∀ pattern ∈ patterns, ".." ∉ Path.namesOf pattern) : here.Descends names r := by
  obtain ⟨pattern, hpattern, parts, hparts, h⟩ := h
  exact h.descends (parent_not_mem_parts hparts (hdown pattern hpattern))

end Glob

namespace FileSystem

variable {fs : FileSystem} {patterns : List String} {p q : Path} {here r : Place}

/-! ### Places of paths -/

theorem isDirectory_of_place (h : fs.place p = .ok here) :
    fs.isDirectory p = here.here.isDirectory := by
  rw [isDirectory, find, h]
  rfl

theorem isDirectory_of_error {fault : AccessFault} (h : fs.place p = .error fault) :
    fs.isDirectory p = false := by
  rw [isDirectory, find, h]
  rfl

theorem place_below (h : fs.place p = .ok here) (names : List String) :
    fs.place (p.below names) = here.follow names := by
  have hnames : fs.namesTo (p.below names) = fs.namesTo p ++ names := by
    show (if p.isAbsolute then p.names ++ names else fs.working ++ (p.names ++ names)) = _
    unfold namesTo
    split
    · rfl
    · exact (List.append_assoc ..).symm
  unfold place at h ⊢
  rw [hnames, Place.follow_append, h]
  rfl

/-- Some paths stand for a path: itself if it is no directory, else the paths of all that is kept of
what the patterns pick below it, each once and in order. -/
inductive Expands (fs : FileSystem) (patterns : List String) (kept : FileTree → Prop) :
    Path → List Path → Prop
  | itself {p : Path} (hp : fs.isDirectory p = false) : Expands fs patterns kept p [p]
  | directory {p : Path} {here : Place} {paths : List Path} (hplace : fs.place p = .ok here)
      (hhere : here.here.isDirectory = true)
      (hsorted : paths.Pairwise fun a b => a.precedes b = true) (hnodup : paths.Nodup)
      (hmem : ∀ q, q ∈ paths ↔
        ∃ names r, q = p.below names ∧ Glob.Picks patterns here names r ∧ kept r.here) :
      Expands fs patterns kept p paths

/-! ### One path -/

theorem exists_expandOne_iff (fs : FileSystem) (patterns : List String) (p : Path) :
    (∃ paths, fs.expandOne patterns p = .ok paths) ↔
      fs.isDirectory p = false ∨ ∀ pattern ∈ patterns, Glob.Usable pattern := by
  have husable : (∃ parts, patterns.mapM Glob.partsOf? = .ok parts) ↔
      ∀ pattern ∈ patterns, Glob.Usable pattern := by
    simp only [exists_mapM_eq_ok_iff, Glob.exists_partsOf?_iff]
  unfold expandOne
  cases h : fs.place p with
  | error fault => simp [isDirectory_of_error h]
  | ok here =>
    rw [isDirectory_of_place h, ← husable]
    cases hhere : here.here.isDirectory with
    | false => simp [hhere]
    | true =>
      cases patterns.mapM Glob.partsOf? with
      | error fault => simp [hhere, Except.map]
      | ok parts => simp [hhere, Except.map]

theorem expands_of_expandOne {paths : List Path} (h : fs.expandOne patterns p = .ok paths) :
    fs.Expands patterns (fun _ => True) p paths := by
  unfold expandOne at h
  split at h
  · next fault hplace =>
    cases h
    exact .itself (isDirectory_of_error hplace)
  · next here hplace =>
    split at h
    · next hhere =>
      cases hparts : patterns.mapM Glob.partsOf? with
      | error fault =>
        rw [hparts] at h
        cases h
      | ok parts =>
        rw [hparts] at h
        obtain rfl := Except.ok.inj h
        refine .directory hplace hhere (Glob.pairwise_matching here p) (Glob.nodup_matching here p)
          fun q => ?_
        simp only [Glob.mem_matching_iff, Glob.picks_iff hparts, and_true]
    · next hhere =>
      cases h
      exact .itself (by rw [isDirectory_of_place hplace]; simpa using hhere)

theorem Expands.exists_place {kept : FileTree → Prop} {paths : List Path} (hsound : fs.root.Sound)
    (hp : fs.contains p = true) (h : fs.Expands patterns kept p paths) (hq : q ∈ paths) :
    ∃ r, fs.place q = .ok r := by
  cases h with
  | itself =>
    obtain rfl := List.mem_singleton.1 hq
    cases hplace : fs.place q with
    | error fault =>
      rw [contains, find, hplace] at hp
      cases hp
    | ok r => exact ⟨r, rfl⟩
  | directory hplace hhere _ _ hmem =>
    obtain ⟨names, r, rfl, hpicks, -⟩ := (hmem q).1 hq
    exact ⟨r, (place_below hplace names).trans (hpicks.follow (sound_place hsound hplace))⟩

theorem Expands.files_iff {paths : List Path} (hsound : fs.root.Sound)
    (h : fs.Expands patterns (fun _ => True) p paths) :
    fs.Expands patterns (fun t => t.isDirectory = false) p paths ↔
      ∀ q ∈ paths, fs.isDirectory q = false := by
  have hpicked : ∀ {here : Place} {names : List String} {r : Place}, fs.place p = .ok here →
      Glob.Picks patterns here names r → fs.isDirectory (p.below names) = r.here.isDirectory :=
    fun hplace hpicks => isDirectory_of_place
      ((place_below hplace _).trans (hpicks.follow (sound_place hsound hplace)))
  constructor
  · intro hfiles q hq
    cases hfiles with
    | itself hp => exact List.mem_singleton.1 hq ▸ hp
    | directory hplace hhere _ _ hmem =>
      obtain ⟨names, r, rfl, hpicks, hkept⟩ := (hmem q).1 hq
      exact (hpicked hplace hpicks).trans hkept
  · intro hnone
    cases h with
    | itself hp => exact .itself hp
    | directory hplace hhere hsorted hnodup hmem =>
      refine .directory hplace hhere hsorted hnodup fun q => ?_
      rw [hmem]
      constructor
      · rintro ⟨names, r, rfl, hpicks, -⟩
        have hq := hnone _ ((hmem _).2 ⟨names, r, rfl, hpicks, trivial⟩)
        exact ⟨names, r, rfl, hpicks, (hpicked hplace hpicks).symm.trans hq⟩
      · rintro ⟨names, r, rfl, hpicks, -⟩
        exact ⟨names, r, rfl, hpicks, trivial⟩

/-! ### Paths in turn -/

theorem expand_eq_ok_iff {paths files : List Path} :
    fs.expand patterns paths = .ok files ↔
      ∃ groups, List.Forall₂ (fun p group => fs.expandOne patterns p = .ok group) paths groups ∧
        files = groups.flatten := by
  have hgroups : ∀ groups, List.Forall₂ (fun p group => fs.expandOne patterns p = .ok group) paths
      groups ↔ paths.mapM (fs.expandOne patterns) = .ok groups :=
    fun _ => mapM_eq_ok_iff.symm
  simp only [hgroups]
  unfold expand
  cases paths.mapM (fs.expandOne patterns) with
  | error fault => simp [Except.map]
  | ok groups => simp [Except.map, eq_comm]

theorem exists_expand_iff (fs : FileSystem) (patterns : List String) (paths : List Path) :
    (∃ files, fs.expand patterns paths = .ok files) ↔
      (∀ p ∈ paths, fs.isDirectory p = false) ∨ ∀ pattern ∈ patterns, Glob.Usable pattern := by
  have heach : (∃ files, fs.expand patterns paths = .ok files) ↔
      ∀ p ∈ paths, ∃ group, fs.expandOne patterns p = .ok group := by
    constructor
    · rintro ⟨files, h⟩
      obtain ⟨groups, hgroups, -⟩ := expand_eq_ok_iff.1 h
      exact exists_mapM_eq_ok_iff.1 ⟨groups, mapM_eq_ok_iff.2 hgroups⟩
    · intro h
      obtain ⟨groups, hgroups⟩ := exists_mapM_eq_ok_iff.2 h
      exact ⟨_, expand_eq_ok_iff.2 ⟨groups, mapM_eq_ok_iff.1 hgroups, rfl⟩⟩
  simp only [heach, exists_expandOne_iff]
  by_cases husable : ∀ pattern ∈ patterns, Glob.Usable pattern
  · exact iff_of_true (fun _ _ => .inr husable) (.inr husable)
  · exact ⟨fun h => .inl fun p hp => (h p hp).resolve_right husable,
      fun h p hp => .inl (h.resolve_right husable p hp)⟩

variable {kept : FileTree → Prop} {paths : List Path} {groups : List (List Path)}

theorem exists_place_of_mem_flatten (hsound : fs.root.Sound)
    (hexist : ∀ p ∈ paths, fs.contains p = true)
    (h : List.Forall₂ (fs.Expands patterns kept) paths groups) (hq : q ∈ groups.flatten) :
    ∃ r, fs.place q = .ok r := by
  induction h with
  | nil => cases hq
  | cons hfirst _ ih =>
    rw [List.flatten_cons, List.mem_append] at hq
    rcases hq with hq | hq
    · exact hfirst.exists_place hsound (hexist _ List.mem_cons_self) hq
    · exact ih (fun p hp => hexist p (List.mem_cons_of_mem _ hp)) hq

theorem forall₂_files_iff (hsound : fs.root.Sound)
    (h : List.Forall₂ (fs.Expands patterns fun _ => True) paths groups) :
    List.Forall₂ (fs.Expands patterns fun t => t.isDirectory = false) paths groups ↔
      ∀ q ∈ groups.flatten, fs.isDirectory q = false := by
  induction h with
  | nil => simp
  | cons hfirst _ ih =>
    rw [List.forall₂_cons, ih, hfirst.files_iff hsound, List.flatten_cons, List.forall_mem_append]

/-! ### Reading what was collected -/

variable {m : Machine} {settings : Settings}

/-- What exists is refused as a file only if it is a directory. -/
theorem read_eq_error {fault : AccessFault} (hr : fs.place p = .ok r)
    (h : fs.read p = .error fault) : fault = .isDirectory ∧ fs.isDirectory p = true := by
  rw [isDirectory_of_place hr]
  rw [read, find, hr] at h
  obtain ⟨here, above⟩ := r
  cases here with
  | file bytes => cases h
  | directory entries =>
    cases h
    exact ⟨rfl, rfl⟩

theorem readText_of_isDirectory (h : fs.isDirectory p = true) (encoding : String) :
    ∃ f, fs.readText m encoding p = .error f ∧ ∀ fault, f ≠ .undecodable fault := by
  have hread : fs.read p = .error .isDirectory := by
    unfold isDirectory at h
    unfold read
    cases hfind : fs.find p with
    | error fault => rw [hfind] at h; cases h
    | ok t =>
      rw [hfind] at h
      cases t with
      | file bytes => cases h
      | directory entries => rfl
  unfold readText
  rw [hread]
  split
  · exact ⟨_, rfl, fun _ => by simp⟩
  · split
    · exact ⟨_, rfl, fun _ => by simp⟩
    · exact ⟨_, rfl, fun _ => by simp⟩

theorem read_eq_error_of_parseFile {fault : AccessFault}
    (h : parseFile m fs settings p = .error (.unreadable (.access q fault))) :
    q = p ∧ fs.read p = .error fault := by
  have htext : fs.readText m settings.encoding p = .error (.access q fault) := by
    unfold parseFile at h
    split at h
    · cases h
    · next hread => rw [hread]; cases h; rfl
    · split at h
      · cases h
      · split at h <;> cases h
  unfold readText at htext
  split at htext
  · cases htext
  · split at htext
    · cases htext
    · split at htext
      · next hread =>
        cases htext
        exact ⟨rfl, hread⟩
      · exact absurd htext (m.text_ne_access _ _)

theorem exists_parseFile_of_failure {files : List Path} {f : FileFailure}
    (h : (parseEach m fs settings files).failure = some f) :
    ∃ path ∈ files, parseFile m fs settings path = .error f := by
  induction files with
  | nil => cases h
  | cons path rest ih =>
    rw [parseEach] at h
    split at h
    · obtain ⟨other, hother, hf⟩ := ih h
      exact ⟨other, List.mem_cons_of_mem _ hother, hf⟩
    · obtain ⟨other, hother, hf⟩ := ih h
      exact ⟨other, List.mem_cons_of_mem _ hother, hf⟩
    · next hfirst =>
      cases h
      exact ⟨path, List.mem_cons_self, hfirst⟩

/-- A reading that is given a directory does not come to its end. -/
theorem failure_ne_none_of_isDirectory {files : List Path} (hq : q ∈ files)
    (h : fs.isDirectory q = true) : (parseEach m fs settings files).failure ≠ none := by
  intro hnone
  obtain ⟨f, hread, hf⟩ := readText_of_isDirectory h settings.encoding
  rcases (parseEach_failure_eq_none_iff files).1 hnone q hq with ⟨fault, hundecodable⟩ | ⟨r, hr⟩
  · rw [hread] at hundecodable
    exact hf fault (Except.error.inj hundecodable)
  · obtain ⟨text, -, htext, -⟩ := parseFile_eq_ok_iff.1 hr
    rw [hread] at htext
    cases htext

/-- Paths that exist in a sound tree can be expanded, unless there is a directory among them and a
pattern that cannot be used. A file then stands for itself, and a directory for the files and
directories that the patterns pick from it, each path once and in order; these are the picked files
alone just if no directory is among them. Reading them meets no other fault of access than a
directory, and does not come to its end if there is one. Patterns that are names pick whatever lies
below, at any depth, with a name for which one of them stands; patterns without `..` pick only what
lies below. -/
theorem directories_expanded (m : Machine) (fs : FileSystem) (settings : Settings)
    (paths : List Path) (hsound : fs.root.Sound) (hexist : ∀ p ∈ paths, fs.contains p = true) :
    ((∃ files, fs.expand settings.filePatterns paths = .ok files) ↔
      (∀ p ∈ paths, fs.isDirectory p = false) ∨
        ∀ pattern ∈ settings.filePatterns, Glob.Usable pattern) ∧
    (∀ files, fs.expand settings.filePatterns paths = .ok files →
      ∃ groups, files = groups.flatten ∧
        List.Forall₂ (fs.Expands settings.filePatterns fun _ => True) paths groups ∧
        (List.Forall₂ (fs.Expands settings.filePatterns fun t => t.isDirectory = false)
          paths groups ↔ ∀ q ∈ files, fs.isDirectory q = false) ∧
        (∀ q fault, (parseEach m fs settings files).failure = some (.unreadable (.access q fault)) →
          q ∈ files ∧ fs.isDirectory q = true ∧ fault = .isDirectory) ∧
        ((∃ q ∈ files, fs.isDirectory q = true) → (parseEach m fs settings files).failure ≠ none)) ∧
    ((∀ pattern ∈ settings.filePatterns, Glob.IsName pattern) → ∀ here names r,
      Glob.Picks settings.filePatterns here names r ↔
        ∃ above name, names = above ++ [name] ∧ here.Descends names r ∧
          ∃ pattern ∈ settings.filePatterns,
            Glob.Stands (Glob.piecesOf pattern.toList) name.toList) ∧
    ((∀ pattern ∈ settings.filePatterns, ".." ∉ Path.namesOf pattern) → ∀ here names r,
      Glob.Picks settings.filePatterns here names r → here.Descends names r) := by
  refine ⟨exists_expand_iff .., fun files hfiles => ?_, Glob.picks_names_iff,
    fun hdown here names r hpicks => hpicks.descends hdown⟩
  obtain ⟨groups, hgroups, rfl⟩ := expand_eq_ok_iff.1 hfiles
  have hexpands := hgroups.imp fun _ _ => expands_of_expandOne
  refine ⟨groups, rfl, hexpands, forall₂_files_iff hsound hexpands, fun q fault hfailure => ?_,
    fun ⟨q, hq, hdirectory⟩ => failure_ne_none_of_isDirectory hq hdirectory⟩
  obtain ⟨path, hpath, hparsed⟩ := exists_parseFile_of_failure hfailure
  obtain ⟨rfl, hread⟩ := read_eq_error_of_parseFile hparsed
  obtain ⟨r, hr⟩ := exists_place_of_mem_flatten hsound hexist hexpands hpath
  exact ⟨hpath, (read_eq_error hr hread).symm⟩

/-- Rule files beside a directory that is called like one. -/
def misnamed : FileSystem :=
  ((({} : FileSystem).addFile ⟨0, ["sub", "b.drl"]⟩ []).addFile ⟨0, ["a.drl"]⟩ []).addDirectory
    ⟨0, ["x.drl"]⟩

theorem sound_misnamed : misnamed.root.Sound := by
  have hempty : ({} : FileSystem).root.Sound := .directory List.nodup_nil (by simp) (by simp)
  have hsub := sound_addFile (p := ⟨0, ["sub", "b.drl"]⟩) hempty (by decide) []
  have hfile := sound_addFile (p := ⟨0, ["a.drl"]⟩) hsub (by decide) []
  exact sound_addDirectory hfile (by decide)

theorem directories_expanded_misnamed :
    let paths : List Path := [⟨0, []⟩, ⟨0, ["a.drl"]⟩]
    let files : List Path :=
      [⟨0, ["a.drl"]⟩, ⟨0, ["sub", "b.drl"]⟩, ⟨0, ["x.drl"]⟩, ⟨0, ["a.drl"]⟩]
    misnamed.root.Sound ∧ (∀ p ∈ paths, misnamed.contains p = true) ∧
    misnamed.expand ({} : Settings).filePatterns paths = .ok files ∧
    ∃ groups, files = groups.flatten ∧
      List.Forall₂ (misnamed.Expands ["*.drl"] fun _ => True) paths groups ∧
      (List.Forall₂ (misnamed.Expands ["*.drl"] fun t => t.isDirectory = false) paths groups ↔
        ∀ q ∈ files, misnamed.isDirectory q = false) ∧
      (parseEach .bare misnamed {} files).failure ≠ none := by
  intro paths files
  have hexist : ∀ p ∈ paths, misnamed.contains p = true := by decide
  have hfiles : misnamed.expand ({} : Settings).filePatterns paths = .ok files := by cbv
  obtain ⟨groups, hflatten, hexpands, hiff, -, hends⟩ :=
    (directories_expanded .bare misnamed {} paths sound_misnamed hexist).2.1 files hfiles
  exact ⟨sound_misnamed, hexist, hfiles, groups, hflatten, hexpands, hiff,
    hends ⟨⟨0, ["x.drl"]⟩, by simp [files], by decide⟩⟩

/-- Where a directory is called like a rule file it is listed in their place, and its
reading fails. -/
theorem directory_listed :
    let fs := ({} : FileSystem).addDirectory ⟨0, ["x.drl"]⟩
    fs.expand ({} : Settings).filePatterns [⟨0, []⟩] = .ok [⟨0, ["x.drl"]⟩] ∧
      fs.isDirectory ⟨0, ["x.drl"]⟩ = true ∧
      (parseEach .bare fs {} [⟨0, ["x.drl"]⟩]).failure =
        some (.unreadable (.access ⟨0, ["x.drl"]⟩ .isDirectory)) := by
  intro fs
  exact ⟨by cbv, by decide, rfl⟩

end FileSystem

end Rulebook
