import Rulebook.Proofs.Unread
import Rulebook.Proofs.LedgerUnit
import Rulebook.Proofs.WrittenTypes

/-!
# What an excerpt shows

A diagnostic counts lines by line feeds, its excerpt is cut at every kind of line break, and an
empty last line is no line there. Main statement: what the excerpt of a diagnostic shows of a text,
and that these are the rows up to its line with carets below its column, unless another line break
stands in these rows or the diagnostic is at the end of a text that ends with a line feed.
-/

namespace Rulebook

variable {frames : Nat}

namespace Text

variable {mark : Char}

/-! ### Rows and places -/

theorem exists_first_piece (mark : Char) (piece cs : List Char) :
    ∃ more, (piecesFrom mark piece cs)[0]? = some (piece.reverse ++ more) := by
  fun_induction piecesFrom mark piece cs with
  | case1 piece => exact ⟨[], by simp⟩
  | case2 piece cs => exact ⟨[], by simp⟩
  | case3 piece c cs _ ih =>
    obtain ⟨more, hmore⟩ := ih
    exact ⟨c :: more, by simpa using hmore⟩

/-- The piece that a place falls into goes at least as far as that place. -/
theorem exists_piece {piece : List Char} (hpiece : mark ∉ piece) (before behind : List Char) :
    ∃ row, (piecesFrom mark piece (before ++ behind))[before.count mark]? = some row ∧
      ((before.reverse ++ piece).takeWhile (· ≠ mark)).length ≤ row.length := by
  induction before generalizing piece with
  | nil =>
    obtain ⟨more, hmore⟩ := exists_first_piece mark piece behind
    refine ⟨_, hmore, ?_⟩
    have := (List.takeWhile_prefix (l := piece) (· ≠ mark)).length_le
    simp only [List.reverse_nil, List.nil_append, List.length_append, List.length_reverse]
    omega
  | cons c before ih =>
    rw [List.cons_append, piecesFrom]
    by_cases hc : c = mark
    · obtain ⟨row, hrow, hlength⟩ := @ih [] List.not_mem_nil
      refine ⟨row, ?_, ?_⟩
      · rw [if_pos hc, hc, List.count_cons_self, List.getElem?_cons_succ]
        exact hrow
      · have hstop : (before.reverse ++ c :: piece).takeWhile (· ≠ mark) =
            before.reverse.takeWhile (· ≠ mark) := by
          rw [List.takeWhile_append, List.takeWhile_cons_of_neg (by simp [hc]), List.append_nil]
          split
          · next hall => exact ((List.takeWhile_prefix _).eq_of_length hall).symm
          · rfl
        rw [List.reverse_cons, List.append_assoc, List.singleton_append, hstop]
        simpa using hlength
    · obtain ⟨row, hrow, hlength⟩ := @ih (c :: piece) (by simp [Ne.symm hc, hpiece])
      refine ⟨row, ?_, by simpa using hlength⟩
      rw [if_neg hc, List.count_cons_of_ne hc]
      exact hrow

/-! ### Rows and lines -/

theorem cons_take_of_succ {n : Nat} {row : List Char} {lines rows : List (List Char)}
    (hrows : rows ≠ [])
    (h : lines.take n =
      if rows.length ≤ n ∧ rows.getLast? = some [] then rows.dropLast else rows.take n) :
    (row :: lines).take (n + 1) =
      if (row :: rows).length ≤ n + 1 ∧ (row :: rows).getLast? = some [] then
        (row :: rows).dropLast
      else (row :: rows).take (n + 1) := by
  have hlast : (row :: rows).getLast? = rows.getLast? := by
    rw [List.getLast?_cons, List.getLast?_eq_some_getLast hrows, Option.getD_some]
  rw [List.take_succ_cons, h, List.length_cons, hlast, List.dropLast_cons_of_ne_nil hrows,
    List.take_succ_cons]
  simp only [Nat.add_le_add_iff_right]
  split
  · rfl
  · rfl

theorem isLineBreak_of_first {n : Nat} {c : Char} {piece cs : List Char}
    (h : ∀ row ∈ (piecesFrom '\n' (c :: piece) cs).take (n + 1), ∀ d ∈ row, isLineBreak d = false) :
    isLineBreak c = false := by
  obtain ⟨more, hmore⟩ := exists_first_piece '\n' (c :: piece) cs
  refine h ((c :: piece).reverse ++ more) ?_ c (by simp)
  refine List.mem_of_getElem? (i := 0) ?_
  rw [List.getElem?_take_of_lt (Nat.succ_pos n)]
  exact hmore

/-- Up to a row before which only line feeds break lines, the lines of a text are its rows; an empty
last row is no line. -/
theorem take_linesFrom {n : Nat} {piece cs : List Char}
    (h : ∀ row ∈ (piecesFrom '\n' piece cs).take n, ∀ c ∈ row, isLineBreak c = false) :
    (linesFrom piece cs).take n =
      if (piecesFrom '\n' piece cs).length ≤ n ∧ (piecesFrom '\n' piece cs).getLast? = some [] then
        (piecesFrom '\n' piece cs).dropLast
      else (piecesFrom '\n' piece cs).take n := by
  fun_induction linesFrom piece cs generalizing n with
  | case1 piece hempty =>
    obtain rfl := List.isEmpty_iff.1 hempty
    cases n with
    | zero => rfl
    | succ n => simp [piecesFrom]
  | case2 piece hne =>
    have hne : piece ≠ [] := by simpa using hne
    rw [piecesFrom, if_neg (by simp [hne])]
  | case3 piece rest =>
    cases n with
    | zero => simp [piecesFrom_ne_nil]
    | succ n =>
      rw [piecesFrom, if_neg (by decide)] at h
      cases isLineBreak_of_first h
  | case4 piece c rest _ hbreak ih =>
    cases n with
    | zero => simp [piecesFrom_ne_nil]
    | succ n =>
      by_cases hc : c = '\n'
      · rw [piecesFrom, if_pos hc] at h ⊢
        exact cons_take_of_succ (piecesFrom_ne_nil _ _ _)
          (ih fun row hrow => h row (List.mem_cons_of_mem _ hrow))
      · rw [piecesFrom, if_neg hc] at h
        rw [isLineBreak_of_first h] at hbreak
        cases hbreak
  | case5 piece c rest _ hbreak ih =>
    have hc : c ≠ '\n' := fun hc => hbreak (hc ▸ by decide)
    rw [piecesFrom, if_neg hc] at h ⊢
    exact ih h

theorem isLineBreak_of_mem_linesFrom {piece cs : List Char}
    (h : ∀ c ∈ piece, isLineBreak c = false) :
    ∀ row ∈ linesFrom piece cs, ∀ c ∈ row, isLineBreak c = false := by
  fun_induction linesFrom piece cs with
  | case1 => simp
  | case2 => simpa using h
  | case3 piece rest ih =>
    intro row hrow
    rcases List.mem_cons.1 hrow with rfl | hrow
    · simpa using h
    · exact ih (by simp) row hrow
  | case4 piece c rest _ _ ih =>
    intro row hrow
    rcases List.mem_cons.1 hrow with rfl | hrow
    · simpa using h
    · exact ih (by simp) row hrow
  | case5 piece c rest _ hbreak ih => exact ih (by simpa [hbreak] using h)

/-! ### Joined rows -/

theorem piecesFrom_of_notMem {piece row : List Char} (h : mark ∉ row) :
    piecesFrom mark piece row = [piece.reverse ++ row] := by
  induction row generalizing piece with
  | nil => simp [piecesFrom]
  | cons c row ih =>
    obtain ⟨hc, hrow⟩ := not_or.1 (mt List.mem_cons.2 h)
    rw [piecesFrom, if_neg (Ne.symm hc), ih hrow, List.reverse_cons, List.append_assoc,
      List.singleton_append]

theorem piecesFrom_append_mark {piece row : List Char} (h : mark ∉ row) (rest : List Char) :
    piecesFrom mark piece (row ++ mark :: rest) =
      (piece.reverse ++ row) :: piecesFrom mark [] rest := by
  induction row generalizing piece with
  | nil => simp [piecesFrom]
  | cons c row ih =>
    obtain ⟨hc, hrow⟩ := not_or.1 (mt List.mem_cons.2 h)
    rw [List.cons_append, piecesFrom, if_neg (Ne.symm hc), ih hrow, List.reverse_cons,
      List.append_assoc, List.singleton_append]

theorem pieces_intercalate {rows : List (List Char)} (hne : rows ≠ [])
    (h : ∀ row ∈ rows, mark ∉ row) : pieces mark ([mark].intercalate rows) = rows := by
  induction rows with
  | nil => exact absurd rfl hne
  | cons row rows ih =>
    have hrow := h row List.mem_cons_self
    cases rows with
    | nil => rw [List.intercalate_singleton, pieces, piecesFrom_of_notMem hrow]; rfl
    | cons next rows =>
      rw [List.intercalate_cons_cons, List.append_assoc, List.singleton_append, pieces,
        piecesFrom_append_mark hrow, ← pieces,
        ih (List.cons_ne_nil _ _) fun row hmem => h row (List.mem_cons_of_mem _ hmem)]
      rfl

end Text

namespace Excerpt

open Text (isLineBreak)

/-! ### Formatting -/

def window (line : Nat) (rows : List String) : List String := (rows.take line).drop (line - 3)

def numberedRows (rows : List String) : List String :=
  rows.mapIdx fun i row => gutter (i + 1 : Nat) ++ row

/-- Carets that begin below a column of a line. -/
def pointer (line column : Nat) : String :=
  String.ofList (List.replicate ((gutter line).length + column) ' ') ++ "^^^"

/-- An excerpt shows the rows from two above a line to that line under their numbers, and then the
given carets. -/
structure Shows (e : Excerpt) (rows : List String) (line : Nat) (carets : List String) : Prop where
  snippet : e.snippet = some ("\n".intercalate (window line rows))
  format : e.snippet ≠ some "" →
    e.format = "\n".intercalate
      (e.place :: (window line (numberedRows rows) ++ carets))

theorem rowsOf_intercalate {rows : List String} (hne : rows ≠ [])
    (h : ∀ row ∈ rows, '\n' ∉ row.toList) : rowsOf ("\n".intercalate rows) = rows := by
  have hpieces : Text.pieces '\n' (['\n'].intercalate (rows.map String.toList)) =
      rows.map String.toList :=
    Text.pieces_intercalate (by simpa using hne) (by simpa using h)
  rw [rowsOf, String.toList_intercalate, show "\n".toList = ['\n'] from rfl, hpieces, List.map_map]
  simp

def numberedFrom (before : Nat) (rows : List String) : List String :=
  rows.mapIdx fun i row => gutter (before + i + 1 : Nat) ++ row

theorem numberedFrom_cons (before : Nat) (row : String) (rows : List String) :
    numberedFrom before (row :: rows) =
      (gutter (before + 1 : Nat) ++ row) :: numberedFrom (before + 1) rows := by
  rw [numberedFrom, List.mapIdx_cons, numberedFrom]
  simp only [Nat.add_zero, Nat.add_assoc, Nat.add_comm 1]

theorem window_numberedRows (line : Nat) (rows : List String) :
    window line (numberedRows rows) = numberedFrom (line - 3) (window line rows) := by
  refine List.ext_getElem? fun i => ?_
  simp only [window, numberedRows, numberedFrom, List.getElem?_drop, List.getElem?_take,
    List.getElem?_mapIdx]
  split
  · rfl
  · rfl

variable {e : Excerpt} {line column : Nat}

theorem numbered_before (hline : e.line = line) {rows : List String} {before : Nat}
    (h : before + rows.length < line) :
    numbered e (before + 1 : Nat) rows = numberedFrom before rows := by
  induction rows generalizing before with
  | nil => rfl
  | cons row rows ih =>
    rw [List.length_cons] at h
    rw [numbered, if_neg (by rw [hline]; omega), numberedFrom_cons]
    exact congrArg _ (@ih (before + 1) (by omega))

theorem numbered_upto (hline : e.line = line) (hcolumn : e.column = column) {rows : List String}
    {before : Nat} (hne : rows ≠ []) (h : before + rows.length = line) :
    numbered e (before + 1 : Nat) rows = numberedFrom before rows ++ [pointer line column] := by
  induction rows generalizing before with
  | nil => exact absurd rfl hne
  | cons row rows ih =>
    rw [List.length_cons] at h
    rw [numbered, numberedFrom_cons]
    cases rows with
    | nil =>
      rw [List.length_nil, Nat.zero_add] at h
      rw [if_pos (by rw [hline, h]), hcolumn, h]
      rfl
    | cons next rows =>
      rw [if_neg (by rw [hline]; rw [List.length_cons] at h; omega)]
      exact congrArg _ (@ih (before + 1) (List.cons_ne_nil _ _) (by omega))

theorem length_window (line : Nat) (rows : List String) :
    (window line rows).length = min line rows.length - (line - 3) := by
  rw [window, List.length_drop, List.length_take]

theorem mem_of_mem_window {rows : List String} {row : String} (h : row ∈ window line rows) :
    row ∈ rows := List.mem_of_mem_take (List.mem_of_mem_drop h)

theorem Shows.of_take_eq {rows rows' carets : List String} (h : e.Shows rows line carets)
    (heq : rows'.take line = rows.take line) : e.Shows rows' line carets := by
  have hwindow : window line rows' = window line rows := congrArg (List.drop (line - 3)) heq
  obtain ⟨hsnippet, hformat⟩ := h
  rw [window_numberedRows] at hformat
  refine ⟨by rw [hwindow]; exact hsnippet, ?_⟩
  rw [window_numberedRows, hwindow]
  exact hformat

theorem shows (hline : e.line = line) (hcolumn : e.column = column) (hpos : 1 ≤ line)
    {rows : List String} (hsnippet : e.snippet = some ("\n".intercalate (window line rows)))
    (h : ∀ row ∈ rows, '\n' ∉ row.toList) :
    e.Shows rows line (if line ≤ rows.length then [pointer line column] else []) := by
  refine ⟨hsnippet, fun hempty => ?_⟩
  have hne : window line rows ≠ [] := fun hnil => hempty (by rw [hsnippet, hnil]; rfl)
  have hfirst : firstLine e.line = (line - 3 + 1 : Nat) := by rw [hline, firstLine]; omega
  have hlength := length_window line rows
  have hrows : rowsOf ("\n".intercalate (window line rows)) = window line rows :=
    rowsOf_intercalate hne fun row hrow => h row (mem_of_mem_window hrow)
  rw [format, hsnippet]
  simp only
  rw [if_neg (fun heq => hempty (by rw [hsnippet, heq])), hrows, hfirst, window_numberedRows]
  split
  · rw [numbered_upto hline hcolumn hne (by rw [hlength]; omega)]
  · rw [numbered_before hline (by rw [hlength]; omega), List.append_nil]

end Excerpt


/-! ### The rows around a place -/

variable {text : String}

theorem notMem_of_mem_lines {row : String} (h : row ∈ Text.lines text) : '\n' ∉ row.toList := by
  obtain ⟨cs, hcs, rfl⟩ := List.mem_map.1 h
  intro hmem
  have := Text.isLineBreak_of_mem_linesFrom (by simp) cs hcs '\n' (by simpa using hmem)
  cases this

theorem nearbyLines_eq (text : String) {line : Nat} :
    Diagnostic.nearbyLines text line = Excerpt.window line (Text.lines text) := by
  rw [Diagnostic.nearbyLines, Excerpt.window, Text.resolve, if_neg (by omega), Int.toNat_natCast,
    Excerpt.firstLine]
  congr 1
  omega

theorem exists_row (text : String) (n : Nat) :
    ∃ row, (Excerpt.rowsOf text)[lineAt text n - 1]? = some row ∧ columnAt text n ≤ row.length := by
  obtain ⟨row, hrow, hlength⟩ := @Text.exists_piece '\n' [] List.not_mem_nil
    (text.toList.take n) (text.toList.drop n)
  rw [List.take_append_drop] at hrow
  refine ⟨String.ofList row, ?_, ?_⟩
  · rw [Excerpt.rowsOf, lineAt, Nat.add_sub_cancel_left, List.getElem?_map, Text.pieces, hrow]
    rfl
  · rw [List.append_nil] at hlength
    rw [String.length_ofList]
    exact hlength

theorem take_lines {line : Nat}
    (h : ∀ row ∈ (Excerpt.rowsOf text).take line, ∀ c ∈ row.toList, Text.isLineBreak c = false) :
    (Text.lines text).take line =
      if (Excerpt.rowsOf text).length ≤ line ∧ (Excerpt.rowsOf text).getLast? = some "" then
        (Excerpt.rowsOf text).dropLast
      else (Excerpt.rowsOf text).take line := by
  have hrows : ∀ row ∈ (Text.pieces '\n' text.toList).take line, ∀ c ∈ row,
      Text.isLineBreak c = false := fun row hrow c hc =>
    h (String.ofList row) (by rw [Excerpt.rowsOf, ← List.map_take]; exact List.mem_map_of_mem hrow)
      c (by simpa using hc)
  have hlast : (Excerpt.rowsOf text).getLast? = some "" ↔
      (Text.pieces '\n' text.toList).getLast? = some [] := by
    rw [Excerpt.rowsOf, List.getLast?_map, Option.map_eq_some_iff]
    refine ⟨fun ⟨row, hrow, hempty⟩ => ?_, fun h => ⟨[], h, rfl⟩⟩
    rw [hrow, String.ofList_injective (hempty.trans String.ofList_nil.symm)]
  have hlength : (Excerpt.rowsOf text).length = (Text.pieces '\n' text.toList).length :=
    List.length_map _
  rw [Text.lines, ← List.map_take, Text.take_linesFrom hrows, ← Text.pieces]
  by_cases hend : (Text.pieces '\n' text.toList).length ≤ line ∧
      (Text.pieces '\n' text.toList).getLast? = some []
  · rw [if_pos hend, if_pos ⟨hlength ▸ hend.1, hlast.2 hend.2⟩, Excerpt.rowsOf, List.map_dropLast]
  · rw [if_neg hend, if_neg fun h => hend ⟨hlength ▸ h.1, hlast.1 h.2⟩, Excerpt.rowsOf,
      List.map_take]

/-! ### Diagnostics and their rows -/

theorem exists_token_of_error {settings : Settings} {sourceName : String} {r : ParseResult}
    (h : parse frames settings sourceName text = .ok r) {d : Diagnostic} (hd : d ∈ r.errors) :
    ∃ t : Token, t.StandsIn text ∧ d.IsAt t := by
  let start := Parser.State.ofText frames { settings with maxErrors := none } sourceName text
  have hstart : Parser.Balanced text True start :=
    Parser.balanced_ofText frames { settings with maxErrors := none } rfl sourceName text
  have hreal : ∀ {p : Package} {t : Parser.State}, Parser.compilationUnit start = .ok p t →
      ∀ d ∈ t.collector.errors, ∃ u : Token, u.StandsIn text ∧ d.IsAt u := fun hunit d hd => by
    have hledger := Parser.compilationUnit_ledger hstart hunit
    obtain ⟨i, -, hat⟩ := hledger.real d hd
    exact ⟨_, hledger.along.stands i, hat⟩
  obtain ⟨t, hunit, -, herrors, -⟩ := exists_unit h
  rw [herrors] at hd
  cases hcap : settings.maxErrors with
  | none =>
    have hsame : settings = { settings with maxErrors := none } := by rw [← hcap]
    rw [hsame] at hunit
    exact hreal hunit d hd
  | some n =>
    have hbeside : start.Beside (Collector.Truncates n) (.ofText frames settings sourceName text) :=
      ⟨rfl, ⟨rfl, hcap, rfl, rfl, List.take_nil.symm⟩, rfl, rfl, rfl, rfl, rfl⟩
    have hend := Parser.Composed.sameEnd (p := Parser.compilationUnit) inferInstance
      (Collector.congruence_truncates n) hbeside
    rw [hunit] at hend
    generalize huncapped : Parser.compilationUnit start = x at hend
    cases hend with
    | ok hends =>
      rw [show _ = List.take n _ from hends.collector.errors] at hd
      exact hreal huncapped d (List.mem_of_mem_take hd)


theorem excerpt_shows_lines (text : String) {d : Diagnostic} {line column : Nat}
    (hline : d.line = line) (hcolumn : d.column = column) (hpos : 1 ≤ line) :
    (d.excerpt (some text)).Shows (Text.lines text) line
      (if line ≤ (Text.lines text).length then [Excerpt.pointer line column] else []) := by
  refine Excerpt.shows (e := d.excerpt (some text)) hline hcolumn hpos ?_
    fun row hrow => notMem_of_mem_lines hrow
  rw [← nearbyLines_eq, ← hline]
  rfl

/-- A diagnostic is on a row of the text, and its excerpt shows the lines up to its line, with
carets if there is such a line. If only line feeds break lines up to there, these are the rows of
the text, and the carets begin below the column of the diagnostic; but an empty last row is not
shown, and then there are no carets. -/
theorem parse_excerpts (settings : Settings) (sourceName text : String) {r : ParseResult}
    (h : parse frames settings sourceName text = .ok r) {d : Diagnostic} (hd : d ∈ r.errors) :
    ∃ (line column : Nat) (row : String),
      d.line = line ∧ d.column = column ∧ 1 ≤ line ∧
      (Excerpt.rowsOf text)[line - 1]? = some row ∧ column ≤ row.length ∧
      (d.excerpt (some text)).Shows (Text.lines text) line
        (if line ≤ (Text.lines text).length then [Excerpt.pointer line column] else []) ∧
      ((∀ row ∈ (Excerpt.rowsOf text).take line, ∀ c ∈ row.toList, Text.isLineBreak c = false) →
        if line = (Excerpt.rowsOf text).length ∧ row = "" then
          (d.excerpt (some text)).Shows (Excerpt.rowsOf text).dropLast line []
        else
          (d.excerpt (some text)).Shows (Excerpt.rowsOf text) line
            [Excerpt.pointer line column]) := by
  obtain ⟨t, ht, hat⟩ := exists_token_of_error h hd
  have hline : d.line = (lineAt text t.start : Nat) := by rw [hat, ← ht.line]; rfl
  have hcolumn : d.column = (columnAt text t.start : Nat) := by rw [hat, ← ht.column]; rfl
  have hpos : 1 ≤ lineAt text t.start := Nat.le_add_right _ _
  obtain ⟨row, hrow, hwithin⟩ := exists_row text t.start
  have hshows := excerpt_shows_lines text hline hcolumn hpos
  generalize lineAt text t.start = line at *
  generalize columnAt text t.start = column at *
  refine ⟨line, column, row, hline, hcolumn, hpos, hrow, hwithin, hshows, fun hfeeds => ?_⟩
  have hlt : line - 1 < (Excerpt.rowsOf text).length := (List.getElem?_eq_some_iff.1 hrow).1
  have htake := take_lines hfeeds
  have hlength := congrArg List.length htake
  rw [List.length_take] at hlength
  -- The row of the diagnostic is the last one just if no row stands behind it.
  have hlast : (Excerpt.rowsOf text).length ≤ line ∧ (Excerpt.rowsOf text).getLast? = some "" ↔
      line = (Excerpt.rowsOf text).length ∧ row = "" := by
    rw [List.getLast?_eq_getElem?]
    constructor
    · rintro ⟨hle, hempty⟩
      rw [show (Excerpt.rowsOf text).length = line by omega, hrow] at hempty
      exact ⟨by omega, Option.some.inj hempty⟩
    · rintro ⟨heq, rfl⟩
      exact ⟨by omega, by rw [← heq, hrow]⟩
  split
  · next hopen =>
    rw [if_pos (hlast.2 hopen)] at htake hlength
    rw [List.length_dropLast] at hlength
    rw [if_neg (by omega)] at hshows
    refine hshows.of_take_eq ?_
    rw [htake, List.take_of_length_le (by rw [List.length_dropLast]; omega)]
  · next hclosed =>
    rw [if_neg (fun h => hclosed (hlast.1 h))] at htake hlength
    rw [List.length_take] at hlength
    rw [if_pos (by omega)] at hshows
    exact hshows.of_take_eq htake.symm

theorem exists_only_error (text : String) (line column : Int) (snippet : Option String)
    (format : String)
    (h : (parse 900 {} "orders" text).toOption.map (·.errors.map fun d =>
        (d.line, d.column, (d.excerpt (some text)).snippet, (d.excerpt (some text)).format)) =
      some [(line, column, snippet, format)]) :
    ∃ r d, parse 900 {} "orders" text = .ok r ∧ r.errors = [d] ∧ d.line = line ∧ d.column = column ∧
      (d.excerpt (some text)).snippet = snippet ∧ (d.excerpt (some text)).format = format := by
  cases hparse : parse 900 {} "orders" text with
  | error f =>
    rw [hparse] at h
    cases h
  | ok r =>
    rw [hparse] at h
    obtain ⟨d, hd, hvalues⟩ := List.map_eq_singleton_iff.1 (Option.some.inj h)
    simp only [Prod.mk.injEq] at hvalues
    exact ⟨r, d, rfl, hd, hvalues⟩

theorem parse_excerpts_fifthRow :
    ∃ r d, parse 900 {} "orders" "package p;\n\nrule A\nwhen P( then\nend\n" = .ok r ∧
      d ∈ r.errors ∧ d.line = 5 ∧ d.column = 0 ∧
      (d.excerpt (some "package p;\n\nrule A\nwhen P( then\nend\n")).Shows
        ["package p;", "", "rule A", "when P( then", "end", ""] 5 [Excerpt.pointer 5 0] := by
  obtain ⟨r, d, h, hd, hline, hcolumn, -⟩ := exists_only_error
    "package p;\n\nrule A\nwhen P( then\nend\n" 5 0 (some "rule A\nwhen P( then\nend")
    "orders:5:0\n   3 | rule A\n   4 | when P( then\n   5 | end\n       ^^^" (by decide +kernel)
  have hmem : d ∈ r.errors := by rw [hd]; exact List.mem_singleton_self d
  have hrows : Excerpt.rowsOf "package p;\n\nrule A\nwhen P( then\nend\n" =
      ["package p;", "", "rule A", "when P( then", "end", ""] := by decide +kernel
  obtain ⟨line, column, row, hl, hc, -, -, -, -, hshows⟩ := parse_excerpts {} "orders" _ h hmem
  obtain rfl : line = 5 := Int.ofNat.inj (hl.symm.trans hline)
  obtain rfl : column = 0 := Int.ofNat.inj (hc.symm.trans hcolumn)
  have hbreaks : ((Excerpt.rowsOf "package p;\n\nrule A\nwhen P( then\nend\n").take 5).all
      (fun row => row.toList.all fun c => !Text.isLineBreak c) = true := by decide +kernel
  have hshows := hshows fun row hrow c hc => by
    simpa using List.all_eq_true.1 (List.all_eq_true.1 hbreaks row hrow) c hc
  rw [hrows] at hshows
  exact ⟨r, d, h, hmem, hline, hcolumn, hshows⟩

/-- Behind a last line feed the row of the diagnostic is missing, with its carets. A form feed,
which the diagnostic does not count, shifts the rows that are shown. -/
theorem excerpts_miss_place :
    (∃ r d, parse 900 {} "orders" "rule A when\n" = .ok r ∧ d ∈ r.errors ∧ d.line = 2 ∧
      d.column = 0 ∧ (d.excerpt (some "rule A when\n")).format = "orders:2:0\n   1 | rule A when" ∧
      ¬ (d.excerpt (some "rule A when\n")).Shows (Excerpt.rowsOf "rule A when\n") 2
        [Excerpt.pointer 2 0]) ∧
    ∃ r d, parse 900 {} "orders" "rule A\x0cwhen P()\nend" = .ok r ∧ d ∈ r.errors ∧ d.line = 2 ∧
      d.column = 0 ∧
      (d.excerpt (some "rule A\x0cwhen P()\nend")).format =
        "orders:2:0\n   1 | rule A\n   2 | when P()\n       ^^^" ∧
      ¬ (d.excerpt (some "rule A\x0cwhen P()\nend")).Shows
        (Excerpt.rowsOf "rule A\x0cwhen P()\nend") 2 [Excerpt.pointer 2 0] := by
  obtain ⟨r, d, h, hd, hline, hcolumn, hsnippet, hformat⟩ := exists_only_error
    "rule A when\n" 2 0 (some "rule A when") "orders:2:0\n   1 | rule A when" (by decide +kernel)
  obtain ⟨r', d', h', hd', hline', hcolumn', hsnippet', hformat'⟩ := exists_only_error
    "rule A\x0cwhen P()\nend" 2 0 (some "rule A\nwhen P()")
    "orders:2:0\n   1 | rule A\n   2 | when P()\n       ^^^" (by decide +kernel)
  have hrows : some "rule A when" ≠
      some ("\n".intercalate (Excerpt.window 2 (Excerpt.rowsOf "rule A when\n"))) := by
        decide +kernel
  have hrows' : some "rule A\nwhen P()" ≠ some ("\n".intercalate
      (Excerpt.window 2 (Excerpt.rowsOf "rule A\x0cwhen P()\nend"))) := by decide +kernel
  refine ⟨⟨r, d, h, by rw [hd]; exact List.mem_singleton_self d, hline, hcolumn, hformat, ?_⟩,
    r', d', h', by rw [hd']; exact List.mem_singleton_self d', hline', hcolumn', hformat', ?_⟩
  · exact fun hshows => hrows (hsnippet.symm.trans hshows.snippet)
  · exact fun hshows => hrows' (hsnippet'.symm.trans hshows.snippet)

end Rulebook
