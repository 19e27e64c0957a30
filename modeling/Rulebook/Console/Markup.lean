import Rulebook.Text.Basic

/-!
# Markup on a terminal

In a text for the terminal `[style]` begins a style and `[/style]` or `[/]` ends it; the tags are
not shown, and one that ends nothing is an error. A backslash makes the tag behind it text, and
before a tag two backslashes stand for one. What exactly is markup is up to the terminal. The markup
that is brought along knows styles by their names, and no pictures.
-/

namespace Rulebook.Console

/-- What a terminal shows of a text, or its complaint. There is none without an opening bracket. -/
structure Markup where
  render : String → Except String String
  plain : ∀ s : String, '[' ∉ s.toList → ∃ shown, render s = .ok shown

namespace Markup

/-! ### Tags -/

def beginsTag (c : Char) : Bool := ('a' ≤ c && c ≤ 'z') || c ∈ ['#', '/', '@']

/-- The tag behind an opening bracket, if a closing one ends it. -/
def tag? (cs : List Char) : Option (List Char) :=
  let inTag (c : Char) := c ≠ '[' && c ≠ ']'
  match cs.takeWhile inTag, cs.dropWhile inTag with
  | c :: body, ']' :: _ => if beginsTag c then some (c :: body) else none
  | _, _ => none

/-- The name in a tag, which ends at an equals sign. Neither case nor the blanks around
it matter. -/
def styleName (cs : List Char) : List Char :=
  (Text.trimRight ((cs.takeWhile (· ≠ '=')).dropWhile Text.isBlank)).map Char.toLower

/-- What is shown of a text so far, and the styles that have not ended, the last one first. -/
structure Progress where
  shown : List Char := []
  styles : List (List Char) := []

namespace Progress

def add (p : Progress) (cs : List Char) : Progress := { p with shown := p.shown ++ cs }

/-- Ends the last style, or the last one of a name. -/
def close (p : Progress) (position : Nat) (tag : List Char) : Except String Progress :=
  let name := styleName tag
  if name = [] then
    if p.styles = [] then
      .error ("closing tag '[/]' at position " ++ toString position ++ " has nothing to close")
    else .ok { p with styles := p.styles.tail }
  else if name ∈ p.styles then .ok { p with styles := p.styles.erase name }
  else
    .error ("closing tag '[/" ++ String.ofList tag ++ "]' at position " ++ toString position ++
      " doesn't match any open tag")

def tag (p : Progress) (position : Nat) : List Char → Except String Progress
  | '/' :: tag => p.close position tag
  | tag => .ok { p with styles := styleName tag :: p.styles }

end Progress

/-! ### Texts -/

def backslashes (n : Nat) : List Char := List.replicate n '\\'

/-- Shows the rest of a text, which begins at `position` behind a number of backslashes; `passed`
of its characters belong to a tag that was read before. -/
def showFrom (p : Progress) (position escapes passed : Nat) : List Char → Except String Progress
  | [] => .ok (p.add (backslashes escapes))
  | c :: cs =>
    if 0 < passed then showFrom p (position + 1) 0 (passed - 1) cs
    else if c = '\\' then showFrom p (position + 1) (escapes + 1) 0 cs
    else if c = '[' then
      match tag? cs with
      | none => showFrom (p.add (backslashes (escapes - 1) ++ ['['])) (position + 1) 0 0 cs
      | some tag =>
        let before := p.add (backslashes (escapes / 2))
        if escapes % 2 = 1 then
          showFrom (before.add ('[' :: tag ++ [']'])) (position + 1) 0 (tag.length + 1) cs
        else do showFrom (← before.tag position tag) (position + 1) 0 (tag.length + 1) cs
    else showFrom (p.add (backslashes escapes ++ [c])) (position + 1) 0 0 cs

theorem showFrom_of_notMem {cs : List Char} (h : '[' ∉ cs) (p : Progress) (position escapes : Nat) :
    ∃ q, showFrom p position escapes 0 cs = .ok q := by
  induction cs generalizing p position escapes with
  | nil => exact ⟨_, rfl⟩
  | cons c cs ih =>
    rw [List.mem_cons, not_or] at h
    rw [showFrom, if_neg (Nat.lt_irrefl 0), if_neg (Ne.symm h.1)]
    split
    · exact ih h.2 _ _ _
    · exact ih h.2 _ _ _

def byName : Markup where
  render s := (showFrom {} 0 0 0 s.toList).map fun p => String.ofList p.shown
  plain s h := by
    obtain ⟨p, hp⟩ := showFrom_of_notMem h {} 0 0
    exact ⟨_, congrArg _ hp⟩

example : (byName.render "[red]a[/] \\[b].drl").toOption = some "a [b].drl" := by decide +kernel

example : (byName.render "[/x].drl").toOption = none := by decide +kernel

end Markup

end Rulebook.Console
