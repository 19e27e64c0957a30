import Rulebook.Json

/-!
# A JSON text determines its value

Where a value ends can be told from its text: brackets are closed, a string ends with the first
quote that is not escaped, and a number ends where no digit follows. So values with the same text
are the same, if they are laid out in the same way.
-/

namespace Rulebook.Json

variable {α : Type} {layout : Layout} {depth : Nat} {rest rest' : List Char}

/-! ### Strings -/

def escapeLetters : List (Char × Char) :=
  [('b', '\x08'), ('f', '\x0c'), ('n', '\n'), ('r', '\r'), ('t', '\t')]

/-- The first character within a string, and what follows it. -/
def readChar? : List Char → Option (Char × List Char)
  | '\\' :: 'u' :: cs =>
    ((List.range 0x20).find? fun n => Text.hexDigits 4 n = cs.take 4).map fun n =>
      (Char.ofNat n, cs.drop 4)
  | '\\' :: c :: cs => some ((escapeLetters.lookup c).getD c, cs)
  | c :: cs => if c = '\x22' then none else some (c, cs)
  | [] => none

theorem readChar?_escapedChar (c : Char) (cs : List Char) :
    readChar? (escapedChar c ++ cs) = some (c, cs) := by
  unfold escapedChar
  split
  · next h => rcases h with rfl | rfl <;> rfl
  split
  · next h => subst h; rfl
  split
  · next h => subst h; rfl
  split
  · next h => subst h; rfl
  split
  · next h => subst h; rfl
  split
  · next h => subst h; rfl
  split
  · next h =>
    have hfind : ∀ n < 0x20, (List.range 0x20).find?
        (fun m => Text.hexDigits 4 m = Text.hexDigits 4 n) = some n := by decide
    have hlength := Text.length_hexDigits 4 c.toNat
    show (((List.range 0x20).find? fun n =>
        Text.hexDigits 4 n = (Text.hexDigits 4 c.toNat ++ cs).take 4).map fun n =>
          (Char.ofNat n, (Text.hexDigits 4 c.toNat ++ cs).drop 4)) = some (c, cs)
    rw [List.take_left' hlength, hfind _ h, Option.map_some, List.drop_left' hlength,
      Char.ofNat_toNat]
  · next hquote _ _ _ _ _ _ =>
    have hne := not_or.1 hquote
    show readChar? (c :: cs) = _
    unfold readChar?
    split
    · next h => exact absurd (List.cons.inj h).1 hne.2
    · next h => exact absurd (List.cons.inj h).1 hne.2
    · next h =>
      obtain ⟨rfl, rfl⟩ := List.cons.inj h
      exact if_neg hne.1
    · next h => cases h

theorem escaped_inj {s s' : List Char}
    (h : s.flatMap escapedChar ++ '\x22' :: rest = s'.flatMap escapedChar ++ '\x22' :: rest') :
    s = s' ∧ rest = rest' := by
  have hquote : ∀ cs, readChar? ('\x22' :: cs) = none := fun _ => rfl
  induction s generalizing s' with
  | nil =>
    cases s' with
    | nil => exact ⟨rfl, (List.cons.inj h).2⟩
    | cons c s' =>
      have hread := congrArg readChar? h
      rw [List.flatMap_cons, List.append_assoc, readChar?_escapedChar] at hread
      cases (hquote rest).symm.trans hread
  | cons c s ih =>
    have hread := congrArg readChar? h
    rw [List.flatMap_cons, List.append_assoc, readChar?_escapedChar] at hread
    cases s' with
    | nil => cases hread.trans (hquote rest')
    | cons d s' =>
      rw [List.flatMap_cons, List.append_assoc, readChar?_escapedChar] at hread
      obtain ⟨rfl, htail⟩ := Prod.mk.inj (Option.some.inj hread)
      obtain ⟨rfl, hrest⟩ := ih htail
      exact ⟨rfl, hrest⟩

theorem quotedString_inj {s s' : String}
    (h : (quotedString s).toList ++ rest = (quotedString s').toList ++ rest') :
    s = s' ∧ rest = rest' := by
  unfold quotedString at h
  rw [String.toList_ofList, String.toList_ofList, List.cons_append, List.cons_append,
    List.cons_append, List.cons_append, List.append_assoc, List.append_assoc] at h
  obtain ⟨hs, hrest⟩ := escaped_inj (List.cons.inj h).2
  exact ⟨String.toList_injective hs, hrest⟩

/-! ### Numbers -/

/-- The characters of numbers. -/
def isNumeral (c : Char) : Bool := c.isDigit || c == '-'

/-- No number goes on here. -/
def Ended (cs : List Char) : Prop := ∀ c, cs.head? = some c → isNumeral c = false

theorem toList_repr (m : Nat) : m.repr.toList = Nat.toDigits 10 m := by
  rw [Nat.repr_eq_ofList_toDigits, String.toList_ofList]

theorem isDigit_of_mem_repr {m : Nat} {c : Char} (h : c ∈ m.repr.toList) : c.isDigit = true := by
  rw [toList_repr] at h
  exact Nat.isDigit_of_mem_toDigits (by decide) (by decide) h

theorem repr_inj {m m' : Nat} (h : m.repr.toList = m'.repr.toList) : m = m' := by
  have hvalue := congrArg (Nat.ofDigitChars 10 · 0) h
  simp only [toList_repr] at hvalue
  rwa [Nat.ofDigitChars_toDigits (by decide) (by decide),
    Nat.ofDigitChars_toDigits (by decide) (by decide)] at hvalue

theorem toList_ofNat (m : Nat) : (toString (Int.ofNat m)).toList = m.repr.toList := rfl

theorem toList_negSucc (m : Nat) :
    (toString (Int.negSucc m)).toList = '-' :: (m + 1).repr.toList :=
  String.toList_append

theorem toString_inj {n n' : Int} (h : (toString n).toList = (toString n').toList) : n = n' := by
  have hminus : ∀ {m : Nat} {cs : List Char}, m.repr.toList ≠ '-' :: cs := by
    intro m cs hm
    have hdigit : '-'.isDigit = true := isDigit_of_mem_repr (hm ▸ List.mem_cons_self)
    exact absurd hdigit (by decide)
  cases n with
  | ofNat m =>
    rw [toList_ofNat] at h
    cases n' with
    | ofNat m' => rw [repr_inj (h.trans (toList_ofNat m'))]
    | negSucc m' => exact absurd (h.trans (toList_negSucc m')) hminus
  | negSucc m =>
    rw [toList_negSucc] at h
    cases n' with
    | ofNat m' => exact absurd h.symm hminus
    | negSucc m' =>
      have hsucc := repr_inj (List.cons.inj (h.trans (toList_negSucc m'))).2
      rw [Nat.succ.inj hsucc]

theorem numerals (n : Int) :
    (toString n).toList ≠ [] ∧ ∀ c ∈ (toString n).toList, isNumeral c = true := by
  have hdigits : ∀ {m : Nat}, ∀ c ∈ m.repr.toList, isNumeral c = true := fun c h => by
    rw [isNumeral, isDigit_of_mem_repr h]
    rfl
  cases n with
  | ofNat m =>
    rw [toList_ofNat]
    exact ⟨toList_repr m ▸ Nat.toDigits_ne_nil, hdigits⟩
  | negSucc m =>
    rw [toList_negSucc]
    exact ⟨List.cons_ne_nil _ _, List.forall_mem_cons.2 ⟨rfl, hdigits⟩⟩

theorem takeWhile_ended {cs : List Char} (hcs : ∀ c ∈ cs, isNumeral c = true) (h : Ended rest) :
    (cs ++ rest).takeWhile isNumeral = cs := by
  rw [List.takeWhile_append_of_pos hcs]
  have hrest : rest.takeWhile isNumeral = [] := by
    cases rest with
    | nil => rfl
    | cons c rest => rw [List.takeWhile_cons, h c rfl]; rfl
  rw [hrest, List.append_nil]

theorem number_inj {n n' : Int} (hrest : Ended rest) (hrest' : Ended rest')
    (h : (toString n).toList ++ rest = (toString n').toList ++ rest') : n = n' ∧ rest = rest' := by
  have htexts := congrArg (List.takeWhile isNumeral) h
  rw [takeWhile_ended (numerals n).2 hrest, takeWhile_ended (numerals n').2 hrest'] at htexts
  rw [htexts] at h
  exact ⟨toString_inj htexts, List.append_cancel_left h⟩

/-! ### Items between brackets -/

/-- What is written for `x` ends on its own: whatever goes on behind it, nothing else begins with
the same text. -/
def Telling (write : α → String) (x : α) : Prop :=
  ∀ y rest rest', Ended rest → Ended rest' →
    (write x).toList ++ rest = (write y).toList ++ rest' → x = y ∧ rest = rest'

def continued (layout : Layout) (depth : Nat) (closing : Char) : List String → List Char
  | [] => (layout.lineBreak depth).toList ++ [closing]
  | item :: items =>
    ',' :: ((layout.lineBreak (depth + 1)).toList ++
      (item.toList ++ continued layout depth closing items))

theorem toList_enclosed (opening closing : Char) (item : String) (items : List String) :
    (enclosed layout depth (String.singleton opening) (String.singleton closing)
      (item :: items)).toList =
      opening :: ((layout.lineBreak (depth + 1)).toList ++
        (item.toList ++ continued layout depth closing items)) := by
  have hitems : ∀ (item : String) (items : List String),
      ((("," ++ layout.lineBreak (depth + 1)).intercalate (item :: items)).toList ++
        ((layout.lineBreak depth).toList ++ [closing])) =
        item.toList ++ continued layout depth closing items := by
    intro item items
    induction items generalizing item with
    | nil => rw [String.intercalate_singleton, continued]
    | cons next items ih =>
      have hcomma : ",".toList = [','] := rfl
      rw [String.intercalate_cons_cons, String.toList_append, String.toList_append,
        String.toList_append, hcomma, List.append_assoc, List.append_assoc, List.append_assoc, ih,
        continued, List.singleton_append]
  unfold enclosed
  dsimp only
  simp only [String.toList_append, String.toList_singleton, List.append_assoc]
  rw [hitems, List.singleton_append]

theorem lineBreak_toList (layout : Layout) (depth : Nat) :
    (layout.lineBreak depth).toList = [] ∨ ∃ cs, (layout.lineBreak depth).toList = '\n' :: cs := by
  cases layout with
  | compact => exact .inl rfl
  | indented width => exact .inr ⟨_, String.toList_append⟩

section Brackets

variable {closing : Char}

theorem continued_nil_ne (hclosing : closing ≠ ',') (cs : List Char) :
    continued layout depth closing [] ++ rest ≠ ',' :: cs := by
  rw [continued]
  rcases lineBreak_toList layout depth with hbreak | ⟨ds, hbreak⟩
  · rw [hbreak]
    exact fun h => hclosing (List.cons.inj h).1
  · rw [hbreak]
    exact fun h => absurd (List.cons.inj h).1 (by decide)

theorem ended_continued (hclosing : isNumeral closing = false) (items : List String) :
    Ended (continued layout depth closing items ++ rest) := by
  intro c hc
  cases items with
  | cons item items =>
    cases hc
    rfl
  | nil =>
    rw [continued] at hc
    rcases lineBreak_toList layout depth with hbreak | ⟨ds, hbreak⟩
    · rw [hbreak] at hc
      cases hc
      exact hclosing
    · rw [hbreak] at hc
      cases hc
      rfl

variable {T : α → String} (hcomma : closing ≠ ',') (hnumeral : isNumeral closing = false)

include hcomma hnumeral

theorem telling_continued {xs : List α} (h : ∀ x ∈ xs, Telling T x) {ys : List α}
    (heq : continued layout depth closing (xs.map T) ++ rest =
      continued layout depth closing (ys.map T) ++ rest') : xs = ys ∧ rest = rest' := by
  induction xs generalizing ys with
  | nil =>
    cases ys with
    | nil => exact ⟨rfl, List.append_cancel_left heq⟩
    | cons y ys => exact absurd heq (continued_nil_ne hcomma _)
  | cons x xs ih =>
    cases ys with
    | nil => exact absurd heq.symm (continued_nil_ne hcomma _)
    | cons y ys =>
      obtain ⟨hx, hxs⟩ := List.forall_mem_cons.1 h
      simp only [List.map_cons, continued, List.cons_append, List.append_assoc] at heq
      have hitem := List.append_cancel_left (List.cons.inj heq).2
      obtain ⟨rfl, hrest⟩ :=
        hx y _ _ (ended_continued hnumeral _) (ended_continued hnumeral _) hitem
      obtain ⟨rfl, hrests⟩ := ih hxs hrest
      exact ⟨rfl, hrests⟩

end Brackets

/-- Items between brackets end on their own if the items do and none begins with the closing
bracket. -/
theorem telling_enclosed {T : α → String} (opening : Char) {closing : Char}
    (hcomma : closing ≠ ',') (hnumeral : isNumeral closing = false) (hbreak : closing ≠ '\n')
    (hfirst : ∀ y cs ds, (T y).toList ++ cs ≠ closing :: ds) {xs : List α}
    (h : ∀ x ∈ xs, Telling T x) {ys : List α}
    (heq : (enclosed layout depth (String.singleton opening) (String.singleton closing)
        (xs.map T)).toList ++ rest =
      (enclosed layout depth (String.singleton opening) (String.singleton closing)
        (ys.map T)).toList ++ rest') : xs = ys ∧ rest = rest' := by
  have hnil : (enclosed layout depth (String.singleton opening) (String.singleton closing)
      []).toList = [opening, closing] := by
    simp [enclosed]
  have hne : ∀ (x : α) (items : List String) (cs ds : List Char),
      (enclosed layout depth (String.singleton opening) (String.singleton closing)
        (T x :: items)).toList ++ cs ≠ opening :: closing :: ds := by
    intro x items cs ds heq
    simp only [toList_enclosed, List.cons_append, List.append_assoc] at heq
    have htail := (List.cons.inj heq).2
    rcases lineBreak_toList layout (depth + 1) with hnone | ⟨es, hline⟩
    · rw [hnone] at htail
      exact hfirst x _ _ htail
    · rw [hline] at htail
      exact hbreak (List.cons.inj htail).1.symm
  cases xs with
  | nil =>
    rw [List.map_nil, hnil] at heq
    cases ys with
    | nil =>
      rw [List.map_nil, hnil] at heq
      exact ⟨rfl, List.append_cancel_left heq⟩
    | cons y ys => exact absurd heq.symm (hne y _ _ _)
  | cons x xs =>
    cases ys with
    | nil =>
      rw [List.map_nil, hnil] at heq
      exact absurd heq (hne x _ _ _)
    | cons y ys =>
      obtain ⟨hx, hxs⟩ := List.forall_mem_cons.1 h
      simp only [List.map_cons, toList_enclosed, List.cons_append, List.append_assoc] at heq
      have hitem := List.append_cancel_left (List.cons.inj heq).2
      obtain ⟨rfl, hrest⟩ :=
        hx y _ _ (ended_continued hnumeral _) (ended_continued hnumeral _) hitem
      obtain ⟨rfl, hrests⟩ := telling_continued hcomma hnumeral hxs hrest
      exact ⟨rfl, hrests⟩

/-! ### Values -/

/-- What the first character of a value tells of it. -/
inductive Shape where
  | null | bool (b : Bool) | number | string | array | object

/-- The shape of a value. -/
def shape : Json → Shape
  | null => .null
  | bool b => .bool b
  | number _ => .number
  | string _ => .string
  | array _ => .array
  | object _ => .object

def Shape.ofChar? (c : Char) : Option Shape :=
  if isNumeral c then some .number
  else if c = 'n' then some .null
  else if c = 't' then some (.bool true)
  else if c = 'f' then some (.bool false)
  else if c = '\x22' then some .string
  else if c = '[' then some .array
  else if c = '\x7b' then some .object
  else none

theorem head?_enclosed (opening : Char) (right : String) (items : List String) :
    (enclosed layout depth (String.singleton opening) right items).toList.head? = some opening := by
  unfold enclosed
  split <;> simp

theorem head?_quotedString (s : String) : (quotedString s).toList.head? = some '\x22' := by
  rw [quotedString, String.toList_ofList]
  rfl

theorem head?_write (layout : Layout) (depth : Nat) (j : Json) :
    ∃ c, (write layout depth j).toList.head? = some c ∧ Shape.ofChar? c = some j.shape := by
  cases j with
  | null => exact ⟨'n', by rw [write]; rfl, rfl⟩
  | bool b =>
    cases b with
    | true => exact ⟨'t', by rw [write]; rfl, rfl⟩
    | false => exact ⟨'f', by rw [write]; rfl, rfl⟩
  | number n =>
    obtain ⟨hne, hnumerals⟩ := numerals n
    obtain ⟨c, cs, hcs⟩ := List.exists_cons_of_ne_nil hne
    refine ⟨c, ?_, if_pos (hnumerals c (hcs ▸ List.mem_cons_self))⟩
    rw [write, hcs]
    rfl
  | string s => exact ⟨'\x22', by rw [write]; exact head?_quotedString s, rfl⟩
  | array items => exact ⟨'[', by rw [write]; exact head?_enclosed '[' _ _, rfl⟩
  | object entries => exact ⟨'\x7b', by rw [write]; exact head?_enclosed '\x7b' _ _, rfl⟩

theorem shape_of_write {j j' : Json}
    (h : (write layout depth j).toList ++ rest = (write layout depth j').toList ++ rest') :
    j.shape = j'.shape := by
  obtain ⟨c, hc, hshape⟩ := head?_write layout depth j
  obtain ⟨c', hc', hshape'⟩ := head?_write layout depth j'
  have hhead := congrArg List.head? h
  rw [List.head?_append, List.head?_append, hc, hc'] at hhead
  cases hhead
  exact Option.some.inj (hshape.symm.trans hshape')

theorem ne_of_head? {cs ds es : List Char} {c d : Char} (h : cs.head? = some c) (hne : c ≠ d) :
    cs ++ ds ≠ d :: es := by
  intro heq
  have hhead := congrArg List.head? heq
  rw [List.head?_append, h] at hhead
  exact hne (Option.some.inj hhead)

theorem write_ne (y : Json) (cs ds : List Char) :
    (write layout depth y).toList ++ cs ≠ ']' :: ds := by
  obtain ⟨c, hc, hshape⟩ := head?_write layout depth y
  refine ne_of_head? hc fun heq => ?_
  subst heq
  cases hshape

def entryText (layout : Layout) (depth : Nat) (entry : String × Json) : String :=
  quotedString entry.1 ++ layout.colon ++ write layout depth entry.2

theorem writeItems_eq (layout : Layout) (depth : Nat) (items : List Json) :
    writeItems layout depth items = items.map (write layout depth) := by
  induction items with
  | nil => rfl
  | cons item items ih => rw [writeItems, ih, List.map_cons]

theorem writeEntries_eq (layout : Layout) (depth : Nat) (entries : List (String × Json)) :
    writeEntries layout depth entries = entries.map (entryText layout depth) := by
  induction entries with
  | nil => rfl
  | cons entry entries ih =>
    obtain ⟨key, value⟩ := entry
    rw [writeEntries, ih, List.map_cons]
    rfl

theorem telling_entryText {value : Json} (h : Telling (write layout depth) value) (key : String) :
    Telling (entryText layout depth) (key, value) := by
  intro entry rest rest' hrest hrest' heq
  obtain ⟨key', value'⟩ := entry
  unfold entryText at heq
  simp only [String.toList_append, List.append_assoc] at heq
  obtain ⟨rfl, htail⟩ := quotedString_inj heq
  obtain ⟨rfl, hrests⟩ := h value' _ _ hrest hrest' (List.append_cancel_left htail)
  exact ⟨rfl, hrests⟩

theorem entryText_ne (entry : String × Json) (cs ds : List Char) :
    (entryText layout depth entry).toList ++ cs ≠ '\x7d' :: ds := by
  unfold entryText
  simp only [String.toList_append, List.append_assoc]
  exact ne_of_head? (head?_quotedString entry.1) (by decide)

mutual

theorem telling_write (layout : Layout) :
    ∀ (j : Json) (depth : Nat), Telling (write layout depth) j
  | null, depth => by
    intro y rest rest' _ _ h
    have hshape := shape_of_write h
    cases y with
    | null => exact ⟨rfl, List.append_cancel_left h⟩
    | _ => cases hshape
  | bool b, depth => by
    intro y rest rest' _ _ h
    have hshape := shape_of_write h
    cases y with
    | bool b' =>
      cases hshape
      exact ⟨rfl, List.append_cancel_left h⟩
    | _ => cases hshape
  | number n, depth => by
    intro y rest rest' hrest hrest' h
    have hshape := shape_of_write h
    cases y with
    | number n' =>
      rw [write, write] at h
      obtain ⟨rfl, hrests⟩ := number_inj hrest hrest' h
      exact ⟨rfl, hrests⟩
    | _ => cases hshape
  | string s, depth => by
    intro y rest rest' _ _ h
    have hshape := shape_of_write h
    cases y with
    | string s' =>
      rw [write, write] at h
      obtain ⟨rfl, hrests⟩ := quotedString_inj h
      exact ⟨rfl, hrests⟩
    | _ => cases hshape
  | array items, depth => by
    intro y rest rest' _ _ h
    have hshape := shape_of_write h
    cases y with
    | array items' =>
      rw [write, write, writeItems_eq, writeItems_eq] at h
      obtain ⟨rfl, hrests⟩ := telling_enclosed '[' (by decide) (by decide) (by decide)
        write_ne (telling_items layout items (depth + 1)) h
      exact ⟨rfl, hrests⟩
    | _ => cases hshape
  | object entries, depth => by
    intro y rest rest' _ _ h
    have hshape := shape_of_write h
    cases y with
    | object entries' =>
      rw [write, write, writeEntries_eq, writeEntries_eq] at h
      obtain ⟨rfl, hrests⟩ := telling_enclosed '\x7b' (by decide) (by decide) (by decide)
        entryText_ne (telling_entries layout entries (depth + 1)) h
      exact ⟨rfl, hrests⟩
    | _ => cases hshape

theorem telling_items (layout : Layout) :
    ∀ (items : List Json) (depth : Nat), ∀ x ∈ items, Telling (write layout depth) x
  | [], _ => fun x hx => by cases hx
  | item :: items, depth =>
    List.forall_mem_cons.2 ⟨telling_write layout item depth, telling_items layout items depth⟩

theorem telling_entries (layout : Layout) :
    ∀ (entries : List (String × Json)) (depth : Nat), ∀ e ∈ entries, Telling
      (entryText layout depth) e
  | [], _ => fun x hx => by cases hx
  | (key, value) :: entries, depth =>
    List.forall_mem_cons.2
      ⟨telling_entryText (telling_write layout value depth) key,
        telling_entries layout entries depth⟩

end

/-- Values that are laid out in the same way and have the same text are the same. -/
theorem render_injective (layout : Layout) {j j' : Json} (h : render layout j = render layout j') :
    j = j' := by
  have hend : Ended [] := fun c hc => by cases hc
  have htext : (write layout 0 j).toList ++ [] = (write layout 0 j').toList ++ [] := by
    rw [List.append_nil, List.append_nil]
    exact congrArg String.toList h
  exact (telling_write layout j 0 j' _ _ hend hend htext).1

end Rulebook.Json
