import Rulebook.Files.Glob
import Mathlib.Data.List.Forall2

/-!
# What a pattern selects

The meaning of a pattern, apart from how it is looked up: which names its pieces stand for, and
which places its parts lead to. Main statements: a name is accepted just if the pieces stand for it,
and the names that a pattern selects are those that its parts lead along. A pattern that is a name
selects, at every depth, what has a name for which its pieces stand. In a sound tree, whatever is
selected is found under the names that lead to it.
-/

namespace Rulebook

/-- Each of some values has a result, or there is none for them all. -/
theorem mapM_eq_ok_iff {ε α β : Type} {f : α → Except ε β} {xs : List α} {ys : List β} :
    xs.mapM f = .ok ys ↔ List.Forall₂ (fun x y => f x = .ok y) xs ys := by
  induction xs generalizing ys with
  | nil => cases ys <;> simp [pure, Except.pure]
  | cons x xs ih =>
    rw [List.mapM_cons]
    cases hx : f x with
    | error fault =>
      constructor
      · rintro ⟨⟩
      · rintro (_ | ⟨hy, -⟩)
        rw [hx] at hy
        cases hy
    | ok y =>
      cases hxs : xs.mapM f with
      | error fault =>
        constructor
        · rintro ⟨⟩
        · rintro (_ | ⟨-, hys⟩)
          rw [ih.2 hys] at hxs
          cases hxs
      | ok rest =>
        show Except.ok (y :: rest) = .ok ys ↔ _
        constructor
        · rintro ⟨⟩
          exact .cons hx (ih.1 hxs)
        · rintro (_ | ⟨hy, hys⟩)
          rw [hx] at hy
          rw [ih.2 hys] at hxs
          cases hy
          cases hxs
          rfl

theorem exists_mapM_eq_ok_iff {ε α β : Type} {f : α → Except ε β} {xs : List α} :
    (∃ ys, xs.mapM f = .ok ys) ↔ ∀ x ∈ xs, ∃ y, f x = .ok y := by
  simp only [mapM_eq_ok_iff]
  induction xs with
  | nil => simp
  | cons x xs ih =>
    rw [List.forall_mem_cons, ← ih]
    constructor
    · rintro ⟨_, _ | ⟨hy, hys⟩⟩
      exact ⟨⟨_, hy⟩, ⟨_, hys⟩⟩
    · rintro ⟨⟨y, hy⟩, ⟨ys, hys⟩⟩
      exact ⟨y :: ys, .cons hy hys⟩

/-- Names that lead down from a place to another. -/
inductive Place.Descends : Place → List String → Place → Prop
  | here (p : Place) : Descends p [] p
  | into {p q : Place} {name : String} {t : FileTree} {names : List String}
      (hentry : (name, t) ∈ p.here.children) (h : Descends (p.below t) names q) :
      Descends p (name :: names) q

namespace Place.Descends

variable {p q : Place} {name : String} {t : FileTree} {names : List String}

theorem of_snoc {r : Place} (h : p.Descends (names ++ [name]) r) :
    ∃ q t, p.Descends names q ∧ (name, t) ∈ q.here.children ∧ r = q.below t := by
  induction names generalizing p with
  | nil =>
    cases h with
    | into hentry h =>
      cases h
      exact ⟨p, _, .here p, hentry, rfl⟩
  | cons first names ih =>
    cases h with
    | into hentry h =>
      obtain ⟨q, t, hq, hchild, rfl⟩ := ih h
      exact ⟨q, t, .into hentry hq, hchild, rfl⟩

theorem trans {r : Place} {more : List String} (h : p.Descends names q) (h' : q.Descends more r) :
    p.Descends (names ++ more) r := by
  induction h with
  | here p => exact h'
  | into hentry _ ih => exact .into hentry (ih h')

end Place.Descends

theorem FileTree.isDirectory_of_mem_children {t : FileTree} {e : String × FileTree}
    (h : e ∈ t.children) : t.isDirectory = true := by
  cases t with
  | file bytes => cases h
  | directory entries => rfl

namespace Glob

/-! ### Names -/

/-- Pieces stand for a name: each for one character that it accepts, and a run for any
characters. -/
inductive Stands : List Piece → List Char → Prop
  | nil : Stands [] []
  | anyRun {pieces : List Piece} {rest : List Char} (run : List Char) (h : Stands pieces rest) :
      Stands (.anyRun :: pieces) (run ++ rest)
  | single {piece : Piece} {pieces : List Piece} {c : Char} {rest : List Char}
      (hc : piece.accepts c = true) (h : Stands pieces rest) : Stands (piece :: pieces) (c :: rest)

theorem accepts_anyRun_iff (pieces : List Piece) (cs : List Char) :
    accepts (.anyRun :: pieces) cs = true ↔
      ∃ run rest, cs = run ++ rest ∧ accepts pieces rest = true := by
  induction cs with
  | nil =>
    rw [accepts_anyRun_nil]
    constructor
    · intro h
      exact ⟨[], [], rfl, h⟩
    · rintro ⟨run, rest, heq, h⟩
      obtain ⟨-, rfl⟩ := List.append_eq_nil_iff.1 heq.symm
      exact h
  | cons c cs ih =>
    rw [accepts_anyRun_cons, Bool.or_eq_true, ih]
    constructor
    · rintro (h | ⟨run, rest, rfl, h⟩)
      · exact ⟨[], c :: cs, rfl, h⟩
      · exact ⟨c :: run, rest, rfl, h⟩
    · rintro ⟨run, rest, heq, h⟩
      rcases List.cons_eq_append_iff.1 heq with ⟨rfl, rfl⟩ | ⟨run', rfl, rfl⟩
      · exact .inl h
      · exact .inr ⟨run', rest, rfl, h⟩

theorem accepts_iff_stands (pieces : List Piece) (cs : List Char) :
    accepts pieces cs = true ↔ Stands pieces cs := by
  induction pieces generalizing cs with
  | nil =>
    rw [accepts_nil, List.isEmpty_iff]
    constructor
    · rintro rfl
      exact .nil
    · rintro ⟨⟩
      rfl
  | cons piece pieces ih =>
    by_cases hrun : piece = .anyRun
    · subst hrun
      rw [accepts_anyRun_iff]
      constructor
      · rintro ⟨run, rest, rfl, h⟩
        exact .anyRun run ((ih rest).1 h)
      · intro h
        cases h with
        | anyRun run h => exact ⟨run, _, rfl, (ih _).2 h⟩
        | single hc h => cases hc
    · cases cs with
      | nil =>
        rw [accepts_single_nil hrun]
        constructor
        · rintro ⟨⟩
        · generalize hcs : ([] : List Char) = cs
          rintro (_ | _ | _)
          · exact absurd rfl hrun
          · cases hcs
      | cons c cs =>
        rw [accepts_single_cons hrun, Bool.and_eq_true, ih]
        constructor
        · rintro ⟨hc, h⟩
          exact .single hc h
        · generalize hcs : c :: cs = ds
          intro h
          cases h with
          | anyRun run h => exact absurd rfl hrun
          | single hc h =>
            cases hcs
            exact ⟨hc, h⟩

/-! ### Places -/

mutual

theorem mem_directories (above : List FileTree) (t : FileTree) (names : List String) (q : Place) :
    (names, q) ∈ directories above t ↔
      (⟨t, above⟩ : Place).Descends names q ∧ q.here.isDirectory = true := by
  cases t with
  | file bytes =>
    rw [directories]
    constructor
    · rintro ⟨⟩
    · rintro ⟨⟨⟩ | ⟨⟨⟩⟩, ⟨⟩⟩
  | directory entries =>
    rw [directories, List.mem_cons, mem_directoriesIn]
    constructor
    · rintro (heq | ⟨name, t, rest, rfl, hentry, h, hq⟩)
      · cases heq
        exact ⟨.here _, rfl⟩
      · exact ⟨.into hentry h, hq⟩
    · rintro ⟨_ | ⟨hentry, h⟩, hq⟩
      · exact .inl rfl
      · exact .inr ⟨_, _, _, rfl, hentry, h, hq⟩

theorem mem_directoriesIn (above : List FileTree) (entries : List (String × FileTree))
    (names : List String) (q : Place) :
    (names, q) ∈ directoriesIn above entries ↔
      ∃ name t rest, names = name :: rest ∧ (name, t) ∈ entries ∧
        (⟨t, above⟩ : Place).Descends rest q ∧ q.here.isDirectory = true := by
  cases entries with
  | nil => simp [directoriesIn]
  | cons entry others =>
    obtain ⟨name, t⟩ := entry
    rw [directoriesIn, List.mem_append, mem_directoriesIn, List.mem_map]
    constructor
    · rintro (⟨⟨rest, r⟩, hmem, heq⟩ | ⟨name', t', rest, rfl, hentry, h⟩)
      · cases heq
        exact ⟨name, t, rest, rfl, List.mem_cons_self, (mem_directories above t rest q).1 hmem⟩
      · exact ⟨name', t', rest, rfl, List.mem_cons_of_mem _ hentry, h⟩
    · rintro ⟨name', t', rest, rfl, hentry, h⟩
      rcases List.mem_cons.1 hentry with heq | hentry
      · cases heq
        exact .inl ⟨(rest, q), (mem_directories above t rest q).2 h, rfl⟩
      · exact .inr ⟨name', t', rest, rfl, hentry, h⟩

end

/-- The parts of a pattern lead from a place along some names to another. -/
inductive Selects : List Part → Place → List String → Place → Prop
  | nil (p : Place) : Selects [] p [] p
  | anyDepth {parts : List Part} {p q r : Place} {names more : List String}
      (hdown : p.Descends names q) (hq : q.here.isDirectory = true) (h : Selects parts q more r) :
      Selects (.anyDepth :: parts) p (names ++ more) r
  | parent {parts : List Part} {p r : Place} {more : List String} (hp : p.here.isDirectory = true)
      (h : Selects parts p.parent more r) : Selects (.parent :: parts) p (".." :: more) r
  | name {pieces : List Piece} {parts : List Part} {p r : Place} {name : String} {t : FileTree}
      {more : List String} (hentry : (name, t) ∈ p.here.children)
      (hname : Stands pieces name.toList)
      (h : Selects parts (p.below t) more r) : Selects (.name pieces :: parts) p (name :: more) r
  | directory {parts : List Part} {p r : Place} {more : List String}
    (hp : p.here.isDirectory = true)
      (h : Selects parts p more r) : Selects (.directory :: parts) p more r

theorem mem_select_cons (part : Part) (parts : List Part) (p : Place) (names : List String) :
    names ∈ select (part :: parts) p ↔
      ∃ first q more, (first, q) ∈ part.step p ∧ more ∈ select parts q ∧ names = first ++ more := by
  simp only [select, List.mem_flatMap, List.mem_map, Prod.exists]
  constructor
  · rintro ⟨first, q, hstep, more, hmore, rfl⟩
    exact ⟨first, q, more, hstep, hmore, rfl⟩
  · rintro ⟨first, q, more, hstep, hmore, rfl⟩
    exact ⟨first, q, hstep, more, hmore, rfl⟩

theorem mem_step_name (pieces : List Piece) (p : Place) (names : List String) (q : Place) :
    (names, q) ∈ Part.step p (.name pieces) ↔
      ∃ name t, (name, t) ∈ p.here.children ∧ Stands pieces name.toList ∧ names = [name] ∧
        q = p.below t := by
  simp only [Part.step, List.mem_map, List.mem_filter, Prod.exists, accepts_iff_stands,
    Prod.mk.injEq]
  constructor
  · rintro ⟨name, t, ⟨hentry, hname⟩, rfl, rfl⟩
    exact ⟨name, t, hentry, hname, rfl, rfl⟩
  · rintro ⟨name, t, hentry, hname, rfl, rfl⟩
    exact ⟨name, t, ⟨hentry, hname⟩, rfl, rfl⟩

theorem mem_step_parent (p : Place) (names : List String) (q : Place) :
    (names, q) ∈ Part.step p .parent ↔
      p.here.isDirectory = true ∧ names = [".."] ∧ q = p.parent := by
  rw [Part.step]
  split
  · next hp => simp [hp]
  · next hp => simp [hp]

theorem mem_step_directory (p : Place) (names : List String) (q : Place) :
    (names, q) ∈ Part.step p .directory ↔ p.here.isDirectory = true ∧ names = [] ∧ q = p := by
  rw [Part.step]
  split
  · next hp => simp [hp]
  · next hp => simp [hp]

theorem selects_cons_iff {part : Part} {parts : List Part} {p r : Place} {names : List String} :
    Selects (part :: parts) p names r ↔
      ∃ first q more, (first, q) ∈ part.step p ∧ Selects parts q more r ∧
        names = first ++ more := by
  constructor
  · intro h
    cases h with
    | anyDepth hdown hq h =>
      exact ⟨_, _, _, (mem_directories p.above p.here _ _).2 ⟨hdown, hq⟩, h, rfl⟩
    | parent hp h => exact ⟨_, _, _, (mem_step_parent ..).2 ⟨hp, rfl, rfl⟩, h, rfl⟩
    | name hentry hname h =>
      exact ⟨_, _, _, (mem_step_name ..).2 ⟨_, _, hentry, hname, rfl, rfl⟩, h, rfl⟩
    | directory hp h => exact ⟨_, _, _, (mem_step_directory ..).2 ⟨hp, rfl, rfl⟩, h, rfl⟩
  · rintro ⟨first, q, more, hstep, h, rfl⟩
    cases part with
    | anyDepth =>
      obtain ⟨hdown, hq⟩ := (mem_directories p.above p.here first q).1 hstep
      exact .anyDepth hdown hq h
    | parent =>
      obtain ⟨hp, rfl, rfl⟩ := (mem_step_parent ..).1 hstep
      exact .parent hp h
    | name pieces =>
      obtain ⟨name, t, hentry, hname, rfl, rfl⟩ := (mem_step_name ..).1 hstep
      exact .name hentry hname h
    | directory =>
      obtain ⟨hp, rfl, rfl⟩ := (mem_step_directory ..).1 hstep
      exact .directory hp h

theorem mem_select_iff (parts : List Part) (p : Place) (names : List String) :
    names ∈ select parts p ↔ ∃ r, Selects parts p names r := by
  induction parts generalizing p names with
  | nil =>
    rw [select, List.mem_singleton]
    constructor
    · rintro rfl
      exact ⟨p, .nil p⟩
    · rintro ⟨r, ⟨⟩⟩
      rfl
  | cons part parts ih =>
    rw [mem_select_cons]
    simp only [ih, selects_cons_iff]
    constructor
    · rintro ⟨first, q, more, hstep, ⟨r, h⟩, rfl⟩
      exact ⟨r, first, q, more, hstep, h, rfl⟩
    · rintro ⟨r, first, q, more, hstep, h, rfl⟩
      exact ⟨first, q, more, hstep, ⟨r, h⟩, rfl⟩

theorem Selects.descends {parts : List Part} {p r : Place} {names : List String}
    (h : Selects parts p names r) (hparts : .parent ∉ parts) : p.Descends names r := by
  induction h with
  | nil p => exact .here p
  | anyDepth hdown _ _ ih => exact hdown.trans (ih fun hmem => hparts (List.mem_cons_of_mem _ hmem))
  | parent => exact absurd List.mem_cons_self hparts
  | name hentry _ _ ih => exact .into hentry (ih fun hmem => hparts (List.mem_cons_of_mem _ hmem))
  | directory _ _ ih => exact ih fun hmem => hparts (List.mem_cons_of_mem _ hmem)

theorem selects_name_iff (pieces : List Piece) (p r : Place) (names : List String) :
    Selects [.anyDepth, .name pieces] p names r ↔
      ∃ above name, names = above ++ [name] ∧ p.Descends names r ∧ Stands pieces name.toList := by
  constructor
  · intro h
    have hdown := h.descends (by simp)
    cases h with
    | anyDepth hdir hq h =>
      cases h with
      | name hentry hname h =>
        cases h
        exact ⟨_, _, rfl, hdown, hname⟩
  · rintro ⟨above, name, rfl, h, hname⟩
    obtain ⟨q, t, hq, hentry, rfl⟩ := h.of_snoc
    exact .anyDepth hq (FileTree.isDirectory_of_mem_children hentry) (.name hentry hname (.nil _))

/-! ### Texts of patterns -/

/-- A pattern that can be used: it is relative, and no part has more to it than `**`. -/
structure Usable (pattern : String) : Prop where
  relative : pattern.startsWith "/" = false
  depths : ∀ name ∈ Path.namesOf pattern, name = "**" ∨ hasDoubleStar name.toList = false

structure IsName (pattern : String) : Prop where
  noSlash : '/' ∉ pattern.toList
  speaks : pattern ∉ ["", ".", "..", "**"]
  noDepth : hasDoubleStar pattern.toList = false

theorem exists_partOf?_iff (name : String) :
    (∃ part, partOf? name = .ok part) ↔ name = "**" ∨ hasDoubleStar name.toList = false := by
  unfold partOf?
  by_cases hdepth : name = "**"
  · simp [hdepth]
  by_cases hparent : name = ".."
  · subst hparent
    have hnone : hasDoubleStar "..".toList = false := by decide
    exact ⟨fun _ => .inr hnone, fun _ => ⟨.parent, rfl⟩⟩
  cases hasDoubleStar name.toList <;> simp [hdepth, hparent]

theorem exists_partsOf?_iff (pattern : String) :
    (∃ parts, partsOf? pattern = .ok parts) ↔ Usable pattern := by
  have hnames : (∃ parts, (Path.namesOf pattern).mapM partOf? = .ok parts) ↔
      ∀ name ∈ Path.namesOf pattern, name = "**" ∨ hasDoubleStar name.toList = false := by
    simp only [exists_mapM_eq_ok_iff, exists_partOf?_iff]
  unfold partsOf?
  cases hrelative : pattern.startsWith "/" with
  | true =>
    simp only [if_pos]
    constructor
    · rintro ⟨parts, ⟨⟩⟩
    · intro h
      exact absurd (hrelative.symm.trans h.relative) (by simp)
  | false =>
    rw [if_neg Bool.false_ne_true]
    constructor
    · rintro ⟨parts, hparts⟩
      refine ⟨hrelative, hnames.1 ?_⟩
      cases h : (Path.namesOf pattern).mapM partOf? with
      | error fault => rw [h] at hparts; cases hparts
      | ok parts => exact ⟨parts, rfl⟩
    · intro h
      obtain ⟨parts, hparts⟩ := hnames.2 h.depths
      exact ⟨_, by rw [hparts]; rfl⟩

theorem pieces_of_not_mem {mark : Char} {cs : List Char} (h : mark ∉ cs) (piece : List Char) :
    Text.piecesFrom mark piece cs = [piece.reverse ++ cs] := by
  induction cs generalizing piece with
  | nil => simp [Text.piecesFrom]
  | cons c cs ih =>
    obtain ⟨hc, hcs⟩ := not_or.1 (List.mem_cons.not.1 h)
    rw [Text.piecesFrom, if_neg fun heq => hc heq.symm, ih hcs]
    simp

theorem namesOf_of_isName {pattern : String} (h : IsName pattern) :
    Path.namesOf pattern = [pattern] := by
  have hspeaks := h.speaks
  simp only [List.mem_cons, List.not_mem_nil, or_false, not_or] at hspeaks
  unfold Path.namesOf Text.pieces
  rw [pieces_of_not_mem h.noSlash]
  simp [hspeaks]

theorem partsOf?_of_isName {pattern : String} (h : IsName pattern) :
    partsOf? pattern = .ok [.anyDepth, .name (piecesOf pattern.toList)] := by
  have hspeaks := h.speaks
  simp only [List.mem_cons, List.not_mem_nil, or_false, not_or] at hspeaks
  have hslash : ∀ {l : List Char}, ¬ (l = "/".toList ∧ ∀ c ∈ l, c ∈ pattern.toList) := by
    rintro l ⟨rfl, hl⟩
    exact h.noSlash (hl '/' (by simp))
  have hfront : ¬ pattern.startsWith "/" = true := fun hstart =>
    hslash ⟨rfl, fun c hc => (String.startsWith_string_iff.1 hstart).subset hc⟩
  have hback : ¬ pattern.endsWith "/" = true := fun hend => by
    rw [String.endsWith_eq_endsWith_toSlice, String.Slice.endsWith_string_iff,
      String.copy_toSlice] at hend
    exact hslash ⟨rfl, fun c hc => hend.subset hc⟩
  have hpart : partOf? pattern = .ok (.name (piecesOf pattern.toList)) := by
    simp [partOf?, hspeaks, h.noDepth]
  have hparts : [pattern].mapM partOf? = .ok [.name (piecesOf pattern.toList)] :=
    mapM_eq_ok_iff.2 (.cons hpart .nil)
  rw [partsOf?, if_neg hfront, namesOf_of_isName h, hparts, if_neg hback]
  rfl

theorem exists_of_mem_mapM {ε α β : Type} {f : α → Except ε β} {xs : List α} {ys : List β} {y : β}
    (h : xs.mapM f = .ok ys) (hy : y ∈ ys) : ∃ x ∈ xs, f x = .ok y := by
  rw [mapM_eq_ok_iff] at h
  induction h with
  | nil => cases hy
  | cons hfirst _ ih =>
    rcases List.mem_cons.1 hy with rfl | hy
    · exact ⟨_, List.mem_cons_self, hfirst⟩
    · obtain ⟨x, hx, hfx⟩ := ih hy
      exact ⟨x, List.mem_cons_of_mem _ hx, hfx⟩

theorem partOf?_eq_parent {name : String} (h : partOf? name = .ok .parent) : name = ".." := by
  unfold partOf? at h
  by_contra hparent
  simp only [hparent, if_false] at h
  split at h
  · cases h
  · split at h <;> cases h

theorem parent_not_mem_parts {pattern : String} {parts : List Part}
    (hparts : partsOf? pattern = .ok parts) (h : ".." ∉ Path.namesOf pattern) :
    .parent ∉ parts := by
  unfold partsOf? at hparts
  split at hparts
  · cases hparts
  · cases hnamed : (Path.namesOf pattern).mapM partOf? with
    | error fault => rw [hnamed] at hparts; cases hparts
    | ok named =>
      rw [hnamed] at hparts
      obtain rfl := Except.ok.inj hparts
      have hparent : .parent ∉ named := fun hmem => by
        obtain ⟨name, hname, hpart⟩ := exists_of_mem_mapM hnamed hmem
        exact h (partOf?_eq_parent hpart ▸ hname)
      simp [hparent]

end Glob

/-!
## Sound file trees

In a sound tree the entries of a directory have different names, and none is called `..`. There a
name leads to the entry that has it, so that what a pattern selects is found again under its path.
Files and directories that are added to a sound tree leave it sound.
-/

/-- The entries of each directory have different names, none of them `..`. -/
inductive FileTree.Sound : FileTree → Prop
  | file (bytes : Text.Bytes) : Sound (.file bytes)
  | directory {entries : List (String × FileTree)} (hnames : (entries.map Prod.fst).Nodup)
      (hparent : ".." ∉ entries.map Prod.fst) (hentries : ∀ e ∈ entries, e.2.Sound) :
      Sound (.directory entries)

structure Place.Sound (p : Place) : Prop where
  here : p.here.Sound
  above : ∀ t ∈ p.above, t.Sound

theorem FileTree.lookup_of_mem {entries : List (String × FileTree)}
    (hnames : (entries.map Prod.fst).Nodup) {name : String} {t : FileTree}
    (h : (name, t) ∈ entries) : entries.lookup name = some t := by
  induction entries with
  | nil => cases h
  | cons entry others ih =>
    obtain ⟨first, u⟩ := entry
    obtain ⟨habsent, hothers⟩ := List.nodup_cons.1 hnames
    rcases List.mem_cons.1 h with heq | h
    · cases heq
      exact List.lookup_cons_self
    · have hne : name ≠ first := fun heq =>
        habsent (heq ▸ List.mem_map.2 ⟨(name, t), h, rfl⟩)
      rw [List.lookup_cons, beq_eq_false_iff_ne.2 hne]
      exact ih hothers h

theorem FileTree.mem_of_lookup {entries : List (String × FileTree)} {name : String} {t : FileTree}
    (h : entries.lookup name = some t) : (name, t) ∈ entries := by
  obtain ⟨before, after, rfl, -⟩ := List.lookup_eq_some_iff.1 h
  simp

namespace Place

variable {p q : Place} {name : String} {t : FileTree} {names : List String}

theorem Sound.entry (h : p.Sound) (hentry : (name, t) ∈ p.here.children) :
    name ≠ ".." ∧ (p.below t).Sound ∧ ∃ entries, p.here = .directory entries ∧
      entries.lookup name = some t := by
  obtain ⟨here, above⟩ := p
  have hhere : here.Sound := h.here
  cases hhere with
  | file bytes => cases hentry
  | directory hnames hparent hentries =>
    refine ⟨fun heq => hparent (heq ▸ List.mem_map.2 ⟨(name, t), hentry, rfl⟩),
      ⟨hentries _ hentry, ?_⟩, _, rfl, FileTree.lookup_of_mem hnames hentry⟩
    intro u hu
    rcases List.mem_cons.1 hu with rfl | hu
    · exact h.here
    · exact h.above u hu

theorem Sound.parent (h : p.Sound) : p.parent.Sound := by
  obtain ⟨here, above⟩ := p
  cases above with
  | nil => exact h
  | cons up above =>
    exact ⟨h.above up List.mem_cons_self, fun t ht => h.above t (List.mem_cons_of_mem _ ht)⟩

theorem Sound.follow_entry (h : p.Sound) (hentry : (name, t) ∈ p.here.children) :
    p.follow (name :: names) = (p.below t).follow names := by
  obtain ⟨hname, -, entries, hhere, hlookup⟩ := h.entry hentry
  rw [follow, hhere]
  simp only [hlookup, if_neg hname]

theorem follow_parent (hp : p.here.isDirectory = true) :
    p.follow (".." :: names) = p.parent.follow names := by
  obtain ⟨here, above⟩ := p
  cases here with
  | file bytes => cases hp
  | directory entries =>
    rw [follow]
    exact if_pos rfl

theorem Sound.of_follow (h : p.Sound) (hq : p.follow names = .ok q) : q.Sound := by
  induction names generalizing p with
  | nil => exact Except.ok.inj hq ▸ h
  | cons name names ih =>
    rw [follow] at hq
    split at hq
    · cases hq
    · next entries hhere =>
      split at hq
      · exact ih h.parent hq
      · split at hq
        · cases hq
        · next t hlookup =>
          refine ih ?_ hq
          exact (h.entry (by rw [hhere]; exact FileTree.mem_of_lookup hlookup)).2.1

theorem follow_append (p : Place) (names more : List String) :
    p.follow (names ++ more) = (p.follow names).bind fun q => q.follow more := by
  induction names generalizing p with
  | nil => rfl
  | cons name names ih =>
    rw [List.cons_append, follow, follow]
    split
    · rfl
    · split
      · exact ih _
      · split
        · rfl
        · exact ih _

theorem Descends.follow (h : p.Descends names q) (hp : p.Sound) : p.follow names = .ok q := by
  induction h with
  | here p => rfl
  | into hentry _ ih => rw [hp.follow_entry hentry, ih (hp.entry hentry).2.1]

end Place

theorem Glob.Selects.follow {parts : List Part} {p r : Place} {names : List String}
    (h : Selects parts p names r) (hp : p.Sound) : p.follow names = .ok r := by
  induction h with
  | nil p => rfl
  | anyDepth hdown _ _ ih =>
    have hq := hdown.follow hp
    rw [Place.follow_append, hq]
    exact ih (hp.of_follow hq)
  | parent hdirectory _ ih => rw [Place.follow_parent hdirectory, ih hp.parent]
  | name hentry _ _ ih => rw [hp.follow_entry hentry, ih (hp.entry hentry).2.1]
  | directory _ _ ih => exact ih hp

/-! ### Building trees -/

namespace FileTree

theorem names_putEntry (name : String) (t : FileTree) (entries : List (String × FileTree)) :
    (putEntry name t entries).map Prod.fst =
      if name ∈ entries.map Prod.fst then entries.map Prod.fst
      else entries.map Prod.fst ++ [name] := by
  induction entries with
  | nil => rfl
  | cons entry others ih =>
    obtain ⟨first, u⟩ := entry
    rw [putEntry]
    by_cases heq : first = name
    · simp [heq]
    · rw [if_neg heq, List.map_cons, ih]
      by_cases hmem : name ∈ others.map Prod.fst
      · simp [hmem]
      · rw [if_neg hmem, if_neg]
        · rfl
        · rw [List.map_cons, List.mem_cons, not_or]
          exact ⟨fun h => heq h.symm, hmem⟩

theorem mem_putEntry {name : String} {t : FileTree} {entries : List (String × FileTree)}
    {e : String × FileTree} (h : e ∈ putEntry name t entries) : e = (name, t) ∨ e ∈ entries := by
  induction entries with
  | nil => exact .inl (List.mem_singleton.1 h)
  | cons entry others ih =>
    obtain ⟨first, u⟩ := entry
    rw [putEntry] at h
    split at h
    · rcases List.mem_cons.1 h with h | h
      · exact .inl h
      · exact .inr (List.mem_cons_of_mem _ h)
    · rcases List.mem_cons.1 h with h | h
      · exact .inr (h ▸ List.mem_cons_self)
      · exact (ih h).imp_right (List.mem_cons_of_mem _)

theorem Sound.change {f : FileTree → FileTree} (hf : ∀ {t}, t.Sound → (f t).Sound)
    {names : List String} (hnames : ".." ∉ names) {t : FileTree} (h : t.Sound) :
    (FileTree.change f names t).Sound := by
  induction names generalizing t with
  | nil => exact hf h
  | cons name names ih =>
    obtain ⟨hname, hrest⟩ := not_or.1 (List.mem_cons.not.1 hnames)
    cases h with
    | file bytes => exact .file bytes
    | @directory entries hdistinct hparent hentries =>
      have hold : ((entries.lookup name).getD (.directory [])).Sound := by
        cases hlookup : entries.lookup name with
        | none => exact .directory List.nodup_nil (by simp) (by simp)
        | some u => exact hentries _ (mem_of_lookup hlookup)
      rw [FileTree.change]
      refine .directory ?_ ?_ fun e he => ?_
      · rw [names_putEntry]
        split
        · exact hdistinct
        · next hnew =>
          refine List.nodup_append.2 ⟨hdistinct, by simp, fun a ha b hb heq => hnew ?_⟩
          rwa [← List.mem_singleton.1 hb, ← heq]
      · rw [names_putEntry]
        split
        · exact hparent
        · simpa [hparent] using hname
      · rcases mem_putEntry he with rfl | he
        · exact ih hrest hold
        · exact hentries e he

end FileTree

namespace FileSystem

variable {fs : FileSystem} {p : Path}

theorem sound_place (h : fs.root.Sound) {q : Place} (hq : fs.place p = .ok q) : q.Sound :=
  Place.Sound.of_follow ⟨h, by simp⟩ hq

theorem sound_addFile (h : fs.root.Sound) (hp : ".." ∉ fs.namesTo p) (bytes : Text.Bytes) :
    (fs.addFile p bytes).root.Sound :=
  h.change (fun _ => .file bytes) hp

theorem sound_addDirectory (h : fs.root.Sound) (hp : ".." ∉ fs.namesTo p) :
    (fs.addDirectory p).root.Sound :=
  h.change id hp

end FileSystem

end Rulebook
