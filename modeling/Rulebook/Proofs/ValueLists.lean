import Rulebook.Proofs.LayoutPatterns
import Rulebook.Proofs.RestrictionLists

/-!
# What value lists mean

A value list becomes restrictions and connectives that stand among the others, in a list where `&&`
is done before `||` and nothing is in parentheses. So a list of two values or more after `in` keeps
its meaning just if no `&&` is next to it.
-/

namespace Rulebook

open Rulebook.Parser

/-! ### Meanings -/

def joined (b : Bool) : List (Connective × Bool) → Bool
  | [] => b
  | (.and, x) :: rest => joined (b && x) rest
  | (.or, x) :: rest => b || joined x rest

def links (v : Restriction → Bool) : List Restriction → List (Connective × Bool)
  | .connective _ c :: r :: rest => (c, v r) :: links v rest
  | _ => []

/-- The truth value of restrictions with connectives between them. -/
def evaluate (v : Restriction → Bool) : List Restriction → Bool
  | [] => true
  | r :: rest => joined (v r) (links v rest)

/-- The truth value of what is written as one restriction: of a value list, that of any or of each
of its comparisons. -/
def Operand.holds (v : Restriction → Bool) : Operand → Bool
  | single r => v r
  | list .or first others => v first || others.any fun p => v p.2
  | list .and first others => v first && others.all fun p => v p.2

/-- The truth value of the restrictions as they are written. -/
def Chain.holds (v : Restriction → Bool) (c : Chain) : Bool :=
  joined (c.first.holds v) (c.others.map fun l => (l.1, l.2.2.holds v))

/-- Two values or more, with one of which something is to be equal. -/
def Operand.Wide : Operand → Prop
  | list .or _ (_ :: _) => True
  | _ => False

def SpacedLinks : Operand → List (Connective × Token × Operand) → Prop
  | _, [] => True
  | o, (c, _, o') :: rest => (c = .and → ¬o.Wide ∧ ¬o'.Wide) ∧ SpacedLinks o' rest

/-- No `and` is next to a list that is wide. -/
def Chain.Spaced (c : Chain) : Prop := SpacedLinks c.first c.others

variable {v : Restriction → Bool} {b : Bool} {o : Operand}
  {others : List (Connective × Token × Operand)}
  {xs rest : List (Connective × Bool)}

/-! ### Flat lists -/

/-- The first of the comparisons that stand for an operand. -/
def Operand.head : Operand → Restriction
  | single r => r
  | list _ first _ => first

def Operand.tail (v : Restriction → Bool) : Operand → List (Connective × Bool)
  | single _ => []
  | list c _ others => others.map fun p => (c, v p.2)

def tails (v : Restriction → Bool) (others : List (Connective × Token × Operand)) :
    List (Connective × Bool) :=
  others.flatMap fun l => (l.1, v l.2.2.head) :: l.2.2.tail v

theorem links_values (c : Connective) (others : List (Token × Restriction))
    (rs : List Restriction) :
    links v ((others.flatMap fun p => [connectiveAt c p.1, p.2]) ++ rs) =
      (others.map fun p => (c, v p.2)) ++ links v rs := by
  induction others with
  | nil => rfl
  | cons p others ih => exact congrArg (List.cons (c, v p.2)) ih

theorem links_flat (c : Connective) (token : Token) (o : Operand) (rs : List Restriction) :
    links v (connectiveAt c token :: (o.flat ++ rs)) =
      (c, v o.head) :: (o.tail v ++ links v rs) := by
  cases o with
  | single r => rfl
  | list c' first others => exact congrArg (List.cons _) (links_values c' others rs)

theorem links_flatLinks (others : List (Connective × Token × Operand)) :
    links v (flatLinks others) = tails v others := by
  induction others with
  | nil => rfl
  | cons l others ih =>
    have hlink := @links_flat v l.1 l.2.1 l.2.2 (flatLinks others)
    rw [ih] at hlink
    exact hlink

theorem evaluate_flat (c : Chain) :
    evaluate v c.flat = joined (v c.first.head) (c.first.tail v ++ tails v c.others) := by
  obtain ⟨first, others⟩ := c
  have hlink := @links_flat v .and default first (flatLinks others)
  rw [links_flatLinks] at hlink
  cases first with
  | single r => exact congrArg (joined (v r)) (List.cons.inj hlink).2
  | list c first ps => exact congrArg (joined (v first)) (List.cons.inj hlink).2

/-! ### Lists that keep their meaning -/

section Joined

variable {α : Type} {f : α → Bool}

theorem joined_and (ps : List α) :
    joined b ((ps.map fun p => (.and, f p)) ++ rest) = joined (b && ps.all f) rest := by
  induction ps generalizing b with
  | nil => rw [List.all_nil, Bool.and_true]; rfl
  | cons p ps ih => rw [List.all_cons, ← Bool.and_assoc, ← ih]; rfl

/-- What is before an `or` may be done before all behind it. -/
theorem joined_or_left (hrest : ∀ x ∈ rest.head?, x.1 = .or) (a : Bool) :
    joined (a || b) rest = (a || joined b rest) := by
  match rest, hrest with
  | [], _ => rfl
  | (.or, x) :: rest, _ => exact Bool.or_assoc a b _
  | (.and, x) :: rest, hrest => cases hrest _ rfl

theorem joined_or (hrest : ∀ x ∈ rest.head?, x.1 = .or) (ps : List α) :
    joined b ((ps.map fun p => (.or, f p)) ++ rest) = joined (b || ps.any f) rest := by
  induction ps generalizing b with
  | nil => rw [List.any_nil, Bool.or_false]; rfl
  | cons p ps ih => rw [List.any_cons, joined_or_left hrest, ← ih]; rfl

end Joined

/-- A value list is done before what is next to it, unless it is wide and this is an `and`. -/
theorem joined_operand (hb : o.Wide → b = true) (hrest : o.Wide → ∀ x ∈ rest.head?, x.1 = .or) :
    joined (b && v o.head) (o.tail v ++ rest) = joined (b && o.holds v) rest := by
  match o with
  | .single r => rfl
  | .list .and first others =>
    rw [Operand.tail, joined_and, Bool.and_assoc]
    rfl
  | .list .or first [] =>
    rw [Operand.holds, List.any_nil, Bool.or_false]
    rfl
  | .list .or first (p :: others) =>
    rw [Operand.tail, joined_or (hrest trivial), hb trivial]
    rfl

theorem joined_tails (hb : o.Wide → b = true) (hspaced : SpacedLinks o others) :
    joined (b && v o.head) (o.tail v ++ tails v others) =
      joined (b && o.holds v) (others.map fun l => (l.1, l.2.2.holds v)) := by
  -- `b` is what is joined to the operand from before: behind an `or` that is nothing
  induction others generalizing o b with
  | nil => exact joined_operand hb fun _ x hx => by cases hx
  | cons l others ih =>
    obtain ⟨c, token, o'⟩ := l
    obtain ⟨hand, hspaced⟩ := hspaced
    have hnext : o.Wide → ∀ x ∈ (tails v ((c, token, o') :: others)).head?, x.1 = .or := by
      intro hwide x hx
      cases hx
      cases c with
      | and => exact absurd hwide (hand rfl).1
      | or => rfl
    rw [joined_operand hb hnext]
    cases c with
    | and => exact ih (fun hwide => absurd hwide (hand rfl).2) hspaced
    | or =>
      have hrest := ih (b := true) (fun _ => rfl) hspaced
      rw [Bool.true_and, Bool.true_and] at hrest
      exact congrArg ((b && o.holds v) || ·) hrest

/-! ### Lists that do not -/

def Operand.atoms : Operand → List Restriction
  | single r => [r]
  | list _ first others => first :: others.map (·.2)

def linkAtoms (others : List (Connective × Token × Operand)) : List Restriction :=
  others.flatMap fun l => l.2.2.atoms

/-- The comparisons up to the next `or` that is written. -/
def runAtoms : List (Connective × Token × Operand) → List Restriction
  | (.and, _, o) :: rest => o.atoms ++ runAtoms rest
  | _ => []

theorem joined_append_false (hxs : ∀ x ∈ xs, x.2 = false) :
    joined false (xs ++ rest) = joined false rest := by
  induction xs with
  | nil => rfl
  | cons x xs ih =>
    obtain ⟨c, x⟩ := x
    obtain rfl : x = false := hxs _ List.mem_cons_self
    cases c <;> exact ih fun y hy => hxs y (List.mem_cons_of_mem _ hy)

theorem joined_append_true (hxs : ∀ x ∈ xs, x.2 = true) (hrest : joined true rest = true) :
    joined true (xs ++ rest) = true := by
  induction xs with
  | nil => exact hrest
  | cons x xs ih =>
    obtain ⟨c, x⟩ := x
    obtain rfl : x = true := hxs _ List.mem_cons_self
    cases c with
    | and => exact ih fun y hy => hxs y (List.mem_cons_of_mem _ hy)
    | or => rfl

/-- What follows an `or` is enough. -/
theorem joined_append_or (hrest : joined true rest = true) :
    joined b (xs ++ (.or, true) :: rest) = true := by
  induction xs generalizing b with
  | nil => exact (congrArg (b || ·) hrest).trans (Bool.or_true b)
  | cons x xs ih =>
    obtain ⟨c, x⟩ := x
    cases c with
    | and => exact ih
    | or => exact (congrArg (b || ·) ih).trans (Bool.or_true b)

/-- Behind a comparison that fails, only an `or` begins anew. -/
theorem joined_false_cons (c : Connective) (x : Bool) :
    joined false ((c, x) :: rest) = joined (decide (c = .or) && x) rest := by
  cases c <;> rfl

theorem head_false (h : ∀ r ∈ o.atoms, v r = false) : v o.head = false := by
  cases o <;> exact h _ List.mem_cons_self

theorem tail_eq (h : ∀ r ∈ o.atoms, v r = b) : ∀ x ∈ o.tail v, x.2 = b := by
  cases o with
  | single r => exact fun x hx => by cases hx
  | list c first others =>
    intro x hx
    obtain ⟨p, hp, rfl⟩ := List.mem_map.1 hx
    exact h _ (List.mem_cons_of_mem _ (List.mem_map_of_mem hp))

theorem holds_false (h : ∀ r ∈ o.atoms, v r = false) : o.holds v = false := by
  have hhead := head_false h
  match o with
  | .single r => exact hhead
  | .list .and first others => exact congrArg (· && _) hhead
  | .list .or first others =>
    have hothers : ∀ p ∈ others, ¬v p.2 = true := fun p hp => by
      rw [h p.2 (List.mem_cons_of_mem _ (List.mem_map_of_mem hp))]
      simp
    exact (congrArg (· || _) hhead).trans ((Bool.false_or _).trans (List.any_eq_false.2 hothers))

theorem links_false (h : ∀ r ∈ linkAtoms others, v r = false) :
    joined false (others.map fun l => (l.1, l.2.2.holds v)) = false := by
  rw [← List.append_nil (others.map _)]
  refine joined_append_false fun x hx => ?_
  obtain ⟨l, hl, rfl⟩ := List.mem_map.1 hx
  exact holds_false fun r hr => h r (List.mem_flatMap_of_mem hl hr)

theorem runAtoms_subset : ∀ r ∈ runAtoms others, r ∈ linkAtoms others := by
  induction others with
  | nil => exact fun _ hr => hr
  | cons l rest ih =>
    obtain ⟨c, token, o⟩ := l
    cases c with
    | and => exact fun r hr => List.mem_append.2 ((List.mem_append.1 hr).imp_right (ih r))
    | or => exact fun r hr => absurd hr List.not_mem_nil

/-- Up to the next `or` all comparisons hold, and so does the flat list. -/
theorem tails_true (h : ∀ r ∈ runAtoms others, v r = true) :
    joined true (tails v others) = true := by
  induction others with
  | nil => rfl
  | cons l rest ih =>
    obtain ⟨c, token, o⟩ := l
    cases c with
    | and =>
      have ho : ∀ r ∈ o.atoms, v r = true := fun r hr => h r (List.mem_append_left _ hr)
      have hhead : v o.head = true := by cases o <;> exact ho _ List.mem_cons_self
      have hrest :=
        joined_append_true (tail_eq ho) (ih fun r hr => h r (List.mem_append_right _ hr))
      exact (congrArg (joined · _) hhead).trans hrest
    | or => rfl

/-- Only up to the next `or` may comparisons hold, and none of the operands behind that does. -/
theorem links_false_of_run (hnodup : (linkAtoms others).Nodup)
    (h : ∀ r ∈ linkAtoms others, v r = true → r ∈ runAtoms others) :
    joined false (others.map fun l => (l.1, l.2.2.holds v)) = false := by
  induction others with
  | nil => rfl
  | cons l rest ih =>
    obtain ⟨c, token, o⟩ := l
    cases c with
    | and =>
      obtain ⟨-, hrest, hdisjoint⟩ := List.nodup_append.1 hnodup
      refine ih hrest fun r hr hv => ?_
      have hrun := h r (List.mem_append_right _ hr) hv
      exact (List.mem_append.1 hrun).resolve_left fun ho => hdisjoint r ho r hr rfl
    | or =>
      refine links_false fun r hr => Bool.eq_false_iff.2 fun hv => ?_
      exact absurd (h r hr hv) List.not_mem_nil

section Regrouping

variable {o' : Operand} {token : Token}

def TellsApart (b : Bool) (o : Operand) (others : List (Connective × Token × Operand))
    (v : Restriction → Bool) : Prop :=
  joined (b && v o.head) (o.tail v ++ tails v others) = true ∧
    joined (b && o.holds v) (others.map fun l => (l.1, l.2.2.holds v)) = false

/-- Before an `and`, the first value of a wide list is enough in the flat list. -/
theorem apart_before (hnodup : (o.atoms ++ linkAtoms ((.and, token, o') :: others)).Nodup)
    (ho : o.Wide) :
    ∃ v, (∀ r, v r = true → r ∈ o.atoms) ∧ TellsApart true o ((.and, token, o') :: others) v := by
  match o, ho with
  | .list .or first (p :: ps), _ =>
    -- only that one holds, so of the written operands the second one does not
    let v (r : Restriction) : Bool := decide (r = first)
    have hfalse : ∀ r ∈ linkAtoms ((.and, token, o') :: others), v r = false := fun r hr =>
      decide_eq_false fun heq =>
        (List.nodup_append.1 hnodup).2.2 first List.mem_cons_self r hr heq.symm
    refine ⟨v, fun r hr => ?_, ?_, ?_⟩
    · rw [of_decide_eq_true hr]
      exact List.mem_cons_self
    · have hfirst : (true && v first) = true := decide_eq_true rfl
      exact (congrArg (joined · _) hfirst).trans rfl
    · have ho' : o'.holds v = false := holds_false fun r hr => hfalse r (List.mem_append_left _ hr)
      have hrest := links_false fun r hr => hfalse r (List.mem_append_right _ hr)
      rw [List.map_cons, ho', joined, Bool.and_false]
      exact hrest

/-- Behind an `and`, the last one is, with what is joined to it by further ones. -/
theorem apart_behind
    (hnodup : (o.atoms ++ linkAtoms ((.and, token, o') :: others)).Nodup) (ho' : o'.Wide) :
    ∃ v, (∀ r, v r = true → r ∈ linkAtoms ((.and, token, o') :: others)) ∧
      TellsApart b o ((.and, token, o') :: others) v := by
  match o', ho' with
  | .list .or first (p :: ps), _ =>
    obtain ⟨-, hlinks, hdisjoint⟩ := List.nodup_append.1 hnodup
    obtain ⟨-, hrest, hapart⟩ := List.nodup_append.1 hlinks
    obtain ⟨init, q, hlast⟩ : ∃ init q, p :: ps = init ++ [q] :=
      ⟨_, _, (List.dropLast_append_getLast (List.cons_ne_nil p ps)).symm⟩
    have hq : q.2 ∈ (Operand.list .or first (p :: ps)).atoms := by
      rw [Operand.atoms, hlast]
      simp
    -- what is before the `and` does not hold, so neither does what is written up to the next `or`
    let v (r : Restriction) : Bool := decide (r = q.2 ∨ r ∈ runAtoms others)
    have hv : ∀ r, v r = true →
        r ∈ linkAtoms ((.and, token, .list .or first (p :: ps)) :: others) :=
      fun r hr => (of_decide_eq_true hr).elim (fun heq => heq ▸ List.mem_append_left _ hq)
        fun hrun => List.mem_append_right _ (runAtoms_subset r hrun)
    refine ⟨v, hv, ?_, ?_⟩
    · have hvq : v q.2 = true := decide_eq_true (.inl rfl)
      have htails : joined true (tails v others) = true :=
        tails_true fun r hr => decide_eq_true (.inr hr)
      have hsplit : o.tail v ++ tails v ((.and, token, .list .or first (p :: ps)) :: others) =
          (o.tail v ++ (.and, v first) :: init.map fun p => (.or, v p.2)) ++
          (.or, true) :: tails v others := by
        show o.tail v ++ (.and, v first) ::
          ((p :: ps).map (fun p => (Connective.or, v p.2)) ++ tails v others) = _
        rw [hlast]
        simp [hvq]
      rw [hsplit]
      exact joined_append_or htails
    · have ho : o.holds v = false := holds_false fun r hr =>
        Bool.eq_false_iff.2 fun hvr => hdisjoint r hr r (hv r hvr) rfl
      have hothers : joined false (others.map fun l => (l.1, l.2.2.holds v)) = false :=
        links_false_of_run hrest fun r hr hvr =>
          Or.resolve_left (of_decide_eq_true hvr) fun heq => hapart q.2 hq r hr heq.symm
      rw [ho, Bool.and_false]
      exact hothers

theorem exists_apart (hnodup : (o.atoms ++ linkAtoms others).Nodup) (hb : o.Wide → b = true)
    (h : ¬SpacedLinks o others) :
    ∃ v, (∀ r, v r = true → r ∈ o.atoms ++ linkAtoms others) ∧ TellsApart b o others v := by
  induction others generalizing o b with
  | nil => exact absurd trivial h
  | cons l rest ih =>
    obtain ⟨c, token, o'⟩ := l
    obtain ⟨-, hlinks, hdisjoint⟩ := List.nodup_append.1 hnodup
    by_cases hand : c = .and → ¬o.Wide ∧ ¬o'.Wide
    · -- what is not spaced is behind the next operand, and nothing before that holds
      have hb' : o'.Wide → decide (c = .or) = true := fun hwide => by
        cases c with
        | and => exact absurd hwide (hand rfl).2
        | or => rfl
      obtain ⟨v, hv, hflat, hwritten⟩ := ih hlinks hb' fun hspaced => h ⟨hand, hspaced⟩
      have ho : ∀ r ∈ o.atoms, v r = false := fun r hr =>
        Bool.eq_false_iff.2 fun hvr => hdisjoint r hr r (hv r hvr) rfl
      refine ⟨v, fun r hr => List.mem_append_right _ (hv r hr), ?_, ?_⟩
      · rw [head_false ho, Bool.and_false, joined_append_false (tail_eq ho)]
        exact (joined_false_cons c _).trans hflat
      · rw [holds_false ho, Bool.and_false]
        exact (joined_false_cons c _).trans hwritten
    · obtain ⟨rfl, hwide⟩ := Classical.not_imp.1 hand
      by_cases ho : o.Wide
      · obtain rfl := hb ho
        obtain ⟨v, hv, hapart⟩ := apart_before hnodup ho
        exact ⟨v, fun r hr => List.mem_append_left _ (hv r hr), hapart⟩
      · have ho' : o'.Wide := by
          by_contra ho'
          exact hwide ⟨ho, ho'⟩
        obtain ⟨v, hv, hapart⟩ := apart_behind hnodup ho'
        exact ⟨v, fun r hr => List.mem_append_right _ (hv r hr), hapart⟩

end Regrouping

def Chain.atoms (c : Chain) : List Restriction := c.first.atoms ++ linkAtoms c.others

/-- Of a list in which no comparison is there twice, the flat form means the same just if no `and`
is next to a wide list. -/
theorem evaluate_flat_iff {c : Chain} (hnodup : c.atoms.Nodup) :
    (∀ v, evaluate v c.flat = c.holds v) ↔ c.Spaced := by
  constructor
  · intro h
    by_contra hspaced
    obtain ⟨v, -, hflat, hwritten⟩ := exists_apart (b := true) hnodup (fun _ => rfl) hspaced
    have heq := h v
    rw [evaluate_flat] at heq
    rw [Bool.true_and] at hflat hwritten
    have hno : true = false := hflat.symm.trans (heq.trans hwritten)
    cases hno
  · intro hspaced v
    have htails := joined_tails (v := v) (b := true) (fun _ => rfl) hspaced
    rw [Bool.true_and, Bool.true_and] at htails
    exact (evaluate_flat c).trans htails

/-! ### No comparison is there twice -/

theorem atoms_sublist (o : Operand) : o.atoms.Sublist o.flat := by
  cases o with
  | single r => exact .refl _
  | list c first others =>
    refine .cons_cons first ?_
    induction others with
    | nil => exact .slnil
    | cons p others ih => exact .cons _ (.cons_cons _ ih)

theorem linkAtoms_sublist : (linkAtoms others).Sublist (flatLinks others) := by
  induction others with
  | nil => exact .slnil
  | cons l others ih => exact .cons _ ((atoms_sublist l.2.2).append ih)

theorem Chain.atoms_sublist (c : Chain) : c.atoms.Sublist c.flat :=
  (Rulebook.atoms_sublist c.first).append linkAtoms_sublist

/-- What stands one behind the other begins at different places. -/
theorem nodup_of_row {text : String} {lo hi : Nat} {rs : List Restriction}
    (h : Row (Restriction.Laid text) lo hi rs) : rs.Nodup := by
  induction h with
  | nil => exact List.nodup_nil
  | @cons lo a b hi r rs _ hlt hr hrs ih =>
    refine List.nodup_cons.2 ⟨fun hmem => ?_, ih⟩
    obtain ⟨a', b', hle, -, -, hr'⟩ := hrs.mem hmem
    have hstart : a = a' := Option.some.inj (hr.start.symm.trans hr'.start)
    omega

section Reading

variable {hashComments : Bool} {text : String} {s : State} {chain : Chain}
  {ts more notes : List Token}

theorem over_of_reading (hs : s.Reading hashComments text) : s.cursor.Over text := by
  have hfinish : (Cursor.ofTokens (scan text hashComments) text).finish = Rulebook.finish text := by
    rw [ofTokens_eq]
  exact Cursor.over_of_front hs.shows.front ((congrArg Cursor.finish hs.shows).trans hfinish)
    hs.hidden

theorem reads_distinct (hs : s.Reading hashComments text)
    (hchain : chain.Written s.stack.room text ts notes) (hahead : s.cursor.ahead = ts ++ more)
    (hmore : ListEnds s.stack.room text more) :
    ∃ t, restrictions s = .ok chain.flat t ∧ chain.atoms.Nodup := by
  obtain ⟨t, ht, -⟩ := reads_restrictions hchain hmore hs rfl hahead
  have hrow := restrictions_row (over_of_reading hs) ht
  exact ⟨t, ht, chain.atoms_sublist.nodup (nodup_of_row hrow)⟩

/-- Restrictions with value lists are read as a flat list, which means for all truth values of their
comparisons what they mean as they are written, just if no `and` is next to a wide list. -/
theorem restrictions_mean (hs : s.Reading hashComments text)
    (hchain : chain.Written s.stack.room text ts notes) (hahead : s.cursor.ahead = ts ++ more)
    (hmore : ListEnds s.stack.room text more) :
    ∃ rs t, restrictions s = .ok rs t ∧ ((∀ v, evaluate v rs = chain.holds v) ↔ chain.Spaced) := by
  obtain ⟨t, ht, hnodup⟩ := reads_distinct hs hchain hahead hmore
  exact ⟨_, t, ht, evaluate_flat_iff hnodup⟩

end Reading

/-- A wide list with no `and` next to it. -/
def spacedList : String := "in (2, 3) || > 1 && != 4"

theorem restrictions_mean_spacedList : ∃ (chain : Chain) (rs : List Restriction) (t : State),
    restrictions (State.ofText 900 {} "" spacedList) = .ok rs t ∧ chain.Spaced ∧ chain.first.Wide ∧
      ∀ v, evaluate v rs = chain.holds v := by
  have hkinds : (State.ofText 900 {} "" spacedList).cursor.ahead.map (·.kind) =
      [.keyword .in_, .symbol .lparen, .literal .int, .symbol .comma, .literal .int,
        .symbol .rparen,
        .symbol .doublePipe, .symbol .greater, .literal .int, .symbol .doubleAmper,
        .symbol .notEqual, .literal .int] := by
    decide +kernel
  have hlength := congrArg List.length hkinds
  rw [List.length_map] at hlength
  generalize hahead : (State.ofText 900 {} "" spacedList).cursor.ahead = ahead at hkinds hlength
  match ahead, hlength with
  | [t₀, t₁, t₂, t₃, t₄, t₅, t₆, t₇, t₈, t₉, t₁₀, t₁₁], _ =>
    simp only [List.map_cons, List.map_nil, List.cons.injEq, and_true] at hkinds
    obtain ⟨h₀, h₁, h₂, h₃, h₄, h₅, h₆, h₇, h₈, h₉, h₁₀, h₁₁⟩ := hkinds
    obtain ⟨chain, notes, hchain, hspaced, hwide⟩ :
        ∃ chain notes, Chain.Written 900 spacedList chain
        ([t₀, t₁, t₂, t₃, t₄, t₅] ++ (t₆ :: ([t₇, t₈] ++ (t₉ :: ([t₁₀, t₁₁] ++ []))))) notes ∧
        chain.Spaced ∧ chain.first.Wide := by
      refine ⟨_, _, .mk (.oneOf h₀ (.mk h₁ rfl (.literal h₂) (.cons h₃ rfl (.literal h₄) .nil) h₅))
        (.cons (c := .or) (by rw [h₆]; decide) (.compared (by rw [h₇]; decide) (.literal h₈))
          (.cons (c := .and) (by rw [h₉]; decide) (.compared (by rw [h₁₀]; decide) (.literal h₁₁))
            .nil)),
        ⟨nofun, fun _ => ⟨id, id⟩, trivial⟩, trivial⟩
    obtain ⟨rs, t, ht, hmean⟩ := restrictions_mean (reading_ofText 900 {} "" spacedList) hchain
      (hahead.trans (List.append_nil _).symm)
      (listEnds_of_operator (fun _ h => by cases h) (by simp))
    exact ⟨chain, rs, t, ht, hspaced, hwide, hmean.2 hspaced⟩

def wideList : String := "> 1 && in (2, 3)"

/-- That `and` is done before the `or` of the list. -/
theorem wideList_regrouped :
    ∃ (chain : Chain) (ts notes : List Token) (rs : List Restriction) (t : State),
    chain.Written 900 wideList ts notes ∧ (State.ofText 900 {} "" wideList).cursor.ahead = ts ∧
      restrictions (State.ofText 900 {} "" wideList) = .ok rs t ∧
      ∃ v, evaluate v rs ≠ chain.holds v := by
  have hkinds : (State.ofText 900 {} "" wideList).cursor.ahead.map (·.kind) =
      [.symbol .greater, .literal .int, .symbol .doubleAmper, .keyword .in_, .symbol .lparen,
        .literal .int, .symbol .comma, .literal .int, .symbol .rparen] := by
    decide +kernel
  have hlength := congrArg List.length hkinds
  rw [List.length_map] at hlength
  generalize hahead : (State.ofText 900 {} "" wideList).cursor.ahead = ahead at hkinds hlength
  match ahead, hlength with
  | [t₀, t₁, t₂, t₃, t₄, t₅, t₆, t₇, t₈], _ =>
    simp only [List.map_cons, List.map_nil, List.cons.injEq, and_true] at hkinds
    obtain ⟨h₀, h₁, h₂, h₃, h₄, h₅, h₆, h₇, h₈⟩ := hkinds
    obtain ⟨chain, notes, hchain, hspaced⟩ : ∃ chain notes, Chain.Written 900 wideList chain
        ([t₀, t₁] ++ (t₂ :: ([t₃, t₄, t₅, t₆, t₇, t₈] ++ []))) notes ∧ ¬chain.Spaced := by
      refine ⟨_, _, .mk (.compared (by rw [h₀]; decide) (.literal h₁)) (.cons (c := .and)
        (by rw [h₂]; decide)
          (.oneOf h₃ (.mk h₄ rfl (.literal h₅) (.cons h₆ rfl (.literal h₇) .nil) h₈)) .nil),
        fun h => (h.1 rfl).2 trivial⟩
    have hmore : ListEnds 900 wideList [] := listEnds_of_operator (fun _ h => by cases h) (by simp)
    obtain ⟨t, ht, hnodup⟩ := reads_distinct (reading_ofText 900 {} "" wideList) hchain
      (hahead.trans (List.append_nil _).symm) hmore
    exact ⟨chain, _, notes, _, t, hchain, rfl, ht,
      not_forall.1 (mt (evaluate_flat_iff hnodup).1 hspaced)⟩

end Rulebook
