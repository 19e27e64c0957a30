import Rulebook.Files.Tree

/-!
# File patterns

A pattern selects paths below a directory. Each of its parts stands for one name, in which `*`
stands for any characters, `?` for any one character and `[...]` for one of a set; the part `**`
stands for any number of directories, and the part `..` for the directory above. A pattern applies
at every depth, and a slash at its end selects directories only. Letter case matters, and hidden
names are like any other. A pattern must be relative.

Names are matched from the last piece to the first: for each piece it is known for which endings of
the name the pieces after it stand, so that the work is bounded by pieces times characters. The
`accepts_` lemmas say what the pieces mean one by one.
-/

namespace Rulebook

/-- A member of a set of characters. -/
inductive Glob.Member where
  | one (c : Char)
  | range (lo hi : Char)
  deriving DecidableEq, Repr

/-- A piece of a pattern for one name. -/
inductive Glob.Piece where
  | anyRun
  | anyOne
  | one (c : Char)
  /-- A character that is in one of the members, or in none of them. -/
  | set (negated : Bool) (members : List Glob.Member)
  deriving DecidableEq, Repr

inductive Glob.Part where
  | anyDepth
  | parent
  | name (pieces : List Glob.Piece)
  /-- Whatever was selected must be a directory. -/
  | directory
  deriving DecidableEq, Repr

/-- Why a pattern cannot be used. -/
inductive Glob.Fault where
  | absolute
  /-- A part has more to it than `**`. -/
  | partialDepth
  deriving DecidableEq, Repr

namespace Glob

def Fault.message : Fault → String
  | absolute => "Non-relative patterns are unsupported"
  | partialDepth => "Invalid pattern: '**' can only be an entire path component"

/-! ### Reading patterns -/

/-- The members of a set. A hyphen between two characters makes a range of them. -/
def membersOf : List Char → List Member
  | a :: '-' :: b :: rest => .range a b :: membersOf rest
  | a :: rest => .one a :: membersOf rest
  | [] => []

/-- A single character, or a range that does not run backwards. -/
def Member.isForward : Member → Bool
  | one _ => true
  | range lo hi => lo ≤ hi

/-- The set of some members. An exclamation mark in front asks for all other characters; it does not
begin a range. -/
def setOf : List Member → Piece
  | .one '!' :: members => .set true members
  | .range '!' hi :: members => .set true (.one '-' :: .one hi :: members)
  | members => .set false members

/-- The set that begins after `[`, with its length up to and including `]`. The first member may be
`]` itself. Ranges that run backwards are left out before the set is looked at. -/
def set? (cs : List Char) : Option (Piece × Nat) :=
  let mark := cs.take (if cs.head? = some '!' then 1 else 0)
  let inner := cs.drop mark.length
  let first := inner.take (if inner.head? = some ']' then 1 else 0)
  let body := first ++ (inner.drop first.length).takeWhile (· ≠ ']')
  if body.length < inner.length then
    let members := mark.map .one ++ membersOf body
    some (setOf (members.filter Member.isForward), mark.length + body.length + 1)
  else none

/-- The pieces of one part. A bracket that is not closed stands for itself. -/
def piecesOf : List Char → List Piece
  | [] => []
  | '*' :: cs => .anyRun :: piecesOf cs
  | '?' :: cs => .anyOne :: piecesOf cs
  | '[' :: cs =>
    match set? cs with
    | some (piece, length) => piece :: piecesOf (cs.drop length)
    | none => .one '[' :: piecesOf cs
  | c :: cs => .one c :: piecesOf cs
termination_by cs => cs.length

/-- Two stars follow one another. -/
def hasDoubleStar : List Char → Bool
  | '*' :: '*' :: _ => true
  | _ :: cs => hasDoubleStar cs
  | [] => false

def partOf? (name : String) : Except Fault Part :=
  if name = "**" then .ok .anyDepth
  else if name = ".." then .ok .parent
  else if hasDoubleStar name.toList then .error .partialDepth
  else .ok (.name (piecesOf name.toList))

def partsOf? (pattern : String) : Except Fault (List Part) :=
  if pattern.startsWith "/" then .error .absolute
  else
    ((Path.namesOf pattern).mapM partOf?).map fun parts =>
      .anyDepth :: parts ++ if pattern.endsWith "/" then [.directory] else []

/-! ### Matching -/

def Member.holds (c : Char) : Member → Bool
  | one d => c = d
  | range lo hi => lo ≤ c && c ≤ hi

def Piece.accepts (c : Char) : Piece → Bool
  | anyRun => false
  | anyOne => true
  | one d => c = d
  | set negated members => members.any (Member.holds c) != negated

/-- For each place in a list, whether `true` stands there or later. -/
def trueFrom : List Bool → List Bool
  | [] => []
  | b :: bs =>
    let later := trueFrom bs
    (b || later.headD false) :: later

/-- Whether pieces stand for a name, and for each ending of it, down to the empty one. -/
def endings : List Piece → List Char → List Bool
  | [], cs => cs.map (fun _ => false) ++ [true]
  | .anyRun :: pieces, cs => trueFrom (endings pieces cs)
  | piece :: pieces, cs =>
    List.zipWith (fun c rest => piece.accepts c && rest) cs (endings pieces cs).tail ++ [false]

def accepts (pieces : List Piece) (cs : List Char) : Bool := (endings pieces cs).headD false

/-! ### What the pieces mean -/

theorem endings_single {piece : Piece} (hpiece : piece ≠ .anyRun) (pieces : List Piece)
    (cs : List Char) :
    endings (piece :: pieces) cs =
      List.zipWith (fun c rest => piece.accepts c && rest) cs (endings pieces cs).tail ++
        [false] := by
  cases piece with
  | anyRun => exact absurd rfl hpiece
  | _ => rfl

theorem endings_ne_nil (pieces : List Piece) (cs : List Char) : endings pieces cs ≠ [] := by
  induction pieces with
  | nil => simp [endings]
  | cons piece pieces ih =>
    cases piece with
    | anyRun =>
      obtain ⟨b, bs, h⟩ := List.exists_cons_of_ne_nil ih
      simp [endings, h, trueFrom]
    | _ => simp [endings]

theorem endings_eq_cons (pieces : List Piece) (cs : List Char) :
    endings pieces cs = accepts pieces cs :: (endings pieces cs).tail := by
  obtain ⟨b, bs, h⟩ := List.exists_cons_of_ne_nil (endings_ne_nil pieces cs)
  rw [accepts, h, List.headD_cons, List.tail_cons]

theorem endings_nil (pieces : List Piece) : endings pieces [] = [accepts pieces []] := by
  induction pieces with
  | nil => rfl
  | cons piece pieces ih =>
    rw [endings_eq_cons (piece :: pieces)]
    congr 1
    by_cases hpiece : piece = .anyRun
    · rw [hpiece, endings, ih]
      rfl
    · rw [endings_single hpiece, List.zipWith_nil_left]
      rfl

theorem endings_cons (pieces : List Piece) (c : Char) (cs : List Char) :
    endings pieces (c :: cs) = accepts pieces (c :: cs) :: endings pieces cs := by
  induction pieces with
  | nil => rfl
  | cons piece pieces ih =>
    rw [endings_eq_cons (piece :: pieces)]
    congr 1
    by_cases hpiece : piece = .anyRun
    · rw [hpiece, endings, ih, trueFrom, List.tail_cons, endings]
    · rw [endings_single hpiece, endings_single hpiece, ih, List.tail_cons,
        endings_eq_cons pieces cs, List.zipWith_cons_cons, List.cons_append, List.tail_cons,
        List.tail_cons]

theorem accepts_nil (cs : List Char) : accepts [] cs = cs.isEmpty := by
  cases cs <;> rfl

theorem accepts_anyRun_nil (pieces : List Piece) :
    accepts (.anyRun :: pieces) [] = accepts pieces [] := by
  rw [accepts, endings, endings_nil, trueFrom, List.headD_cons]
  exact Bool.or_false _

theorem accepts_anyRun_cons (pieces : List Piece) (c : Char) (cs : List Char) :
    accepts (.anyRun :: pieces) (c :: cs) =
      (accepts pieces (c :: cs) || accepts (.anyRun :: pieces) cs) := by
  rw [accepts, endings, endings_cons, trueFrom, List.headD_cons]
  rfl

theorem accepts_single_nil {piece : Piece} (hpiece : piece ≠ .anyRun) (pieces : List Piece) :
    accepts (piece :: pieces) [] = false := by
  rw [accepts, endings_single hpiece, List.zipWith_nil_left, List.nil_append, List.headD_cons]

theorem accepts_single_cons {piece : Piece} (hpiece : piece ≠ .anyRun) (pieces : List Piece)
    (c : Char) (cs : List Char) :
    accepts (piece :: pieces) (c :: cs) = (piece.accepts c && accepts pieces cs) := by
  rw [accepts, endings_single hpiece, endings_cons, List.tail_cons, endings_eq_cons pieces cs,
    List.zipWith_cons_cons, List.cons_append, List.headD_cons]

/-- Names that lead from one place to another, and the other place. -/
abbrev Found := List String × Place

mutual

/-- The directories of a tree with their names, the tree itself first; `above` are the directories
above it. -/
def directories (above : List FileTree) : FileTree → List Found
  | .file _ => []
  | .directory entries =>
    ([], ⟨.directory entries, above⟩) :: directoriesIn (.directory entries :: above) entries

def directoriesIn (above : List FileTree) : List (String × FileTree) → List Found
  | [] => []
  | (name, t) :: rest =>
    (directories above t).map (fun (names, q) => (name :: names, q)) ++ directoriesIn above rest

end

def Part.step (p : Place) : Part → List Found
  | anyDepth => directories p.above p.here
  | parent => if p.here.isDirectory then [([".."], p.parent)] else []
  | name pieces =>
    (p.here.children.filter fun (n, _) => accepts pieces n.toList).map fun (n, t) =>
      ([n], p.below t)
  | directory => if p.here.isDirectory then [([], p)] else []

def select : List Part → Place → List (List String)
  | [], _ => [[]]
  | part :: rest, p => (part.step p).flatMap fun (names, q) => (select rest q).map (names ++ ·)

/-- The paths below a directory that one of the patterns selects, each once and in order. -/
def matching (patterns : List (List Part)) (here : Place) (p : Path) : List Path :=
  ((patterns.flatMap fun parts => select parts here).eraseDups.map p.below).mergeSort Path.precedes

end Glob

/-- The paths that a path stands for: those below it that one of the patterns selects if it is a
directory, else itself. The patterns are not looked at for the sake of a file. -/
def FileSystem.expandOne (fs : FileSystem) (patterns : List String) (p : Path) :
    Except Glob.Fault (List Path) :=
  match fs.place p with
  | .error _ => .ok [p]
  | .ok here =>
    if here.here.isDirectory then
      (patterns.mapM Glob.partsOf?).map fun patterns => Glob.matching patterns here p
    else .ok [p]

/-- Replaces each directory among some paths by the paths below it that one of the patterns
selects. -/
def FileSystem.expand (fs : FileSystem) (patterns : List String) (paths : List Path) :
    Except Glob.Fault (List Path) :=
  (paths.mapM (fs.expandOne patterns)).map List.flatten

end Rulebook
