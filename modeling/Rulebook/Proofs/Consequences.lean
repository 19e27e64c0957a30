import Rulebook.Proofs.Closings
import Rulebook.Proofs.Entries
import Rulebook.Proofs.Framing

/-!
# Consequences as slices of a text

The consequence of a rule is what stands between its `then` and the next `end`, without the blanks
and the line break at its beginning. It stands where its location says.
-/

namespace Rulebook

variable {frames : Nat}

open Lexeme
open Rulebook.Parser

variable {hashComments : Bool} {text : String} {cs ds left dropped behind : List Char}

/-! ### What is dropped -/

/-- What is dropped at the beginning of a consequence, in front of what is left: all blanks and
tabs, then a carriage return and then a line feed, if they are there. -/
def Dropped (dropped left : List Char) : Prop :=
  ∃ blanks cr lf, dropped = blanks ++ (cr ++ lf) ∧
    (∀ c ∈ blanks, c = ' ' ∨ c = '\t') ∧ (cr ++ (lf ++ left)).head? ∉ [some ' ', some '\t'] ∧
    (cr = ['\r'] ∨ cr = [] ∧ (lf ++ left).head? ≠ some '\r') ∧
    (lf = ['\n'] ∨ lf = [] ∧ left.head? ≠ some '\n')

/-- A character may be passed over, if it is there. -/
theorem exists_optional (d : Char) (xs ys : List Char) : ∃ zs ws, ys = zs ++ ws ∧
    (if ((xs ++ ys).drop xs.length).head? = some d then xs.length + 1 else xs.length) =
      (xs ++ zs).length ∧ (zs = [d] ∨ zs = [] ∧ ws.head? ≠ some d) := by
  rw [List.drop_left]
  by_cases hhead : ys.head? = some d
  · obtain ⟨ws, rfl⟩ := List.head?_eq_some_iff.1 hhead
    exact ⟨[d], ws, rfl, by rw [if_pos hhead, List.length_append, List.length_singleton], .inl rfl⟩
  · exact ⟨[], ys, rfl, by rw [if_neg hhead, List.append_nil], .inr ⟨rfl, hhead⟩⟩

theorem exists_blanks (cs : List Char) : ∃ blanks ys, cs = blanks ++ ys ∧
    (cs.takeWhile fun c => c == ' ' || c == '\t') = blanks ∧ (∀ c ∈ blanks, c = ' ' ∨ c = '\t') ∧
    ys.head? ∉ [some ' ', some '\t'] := by
  refine ⟨cs.takeWhile fun c => c == ' ' || c == '\t', cs.dropWhile fun c => c == ' ' || c == '\t',
    List.takeWhile_append_dropWhile.symm, rfl, fun c hc => ?_, fun hhead => ?_⟩
  · simpa using List.mem_takeWhile_imp hc
  · have hnot := List.head?_dropWhile_not (fun c : Char => c == ' ' || c == '\t') cs
    rcases List.mem_cons.1 hhead with heq | hhead
    · rw [heq] at hnot
      cases hnot
    · rw [List.mem_singleton.1 hhead] at hnot
      cases hnot

theorem dropped_leadingBlanks (cs : List Char) :
    Dropped (cs.take (leadingBlanks cs)) (cs.drop (leadingBlanks cs)) := by
  obtain ⟨blanks, ys, rfl, htake, hblanks, hys⟩ := exists_blanks cs
  obtain ⟨cr, ws, rfl, hcr, hcr'⟩ := exists_optional '\r' blanks ys
  obtain ⟨lf, left, rfl, hlf, hlf'⟩ := exists_optional '\n' (blanks ++ cr) ws
  have hcount : leadingBlanks (blanks ++ (cr ++ (lf ++ left))) = (blanks ++ (cr ++ lf)).length := by
    unfold leadingBlanks
    dsimp only
    rw [htake, hcr, ← List.append_assoc, hlf, List.append_assoc]
  have hsplit : blanks ++ (cr ++ (lf ++ left)) = (blanks ++ (cr ++ lf)) ++ left := by
    rw [List.append_assoc, List.append_assoc]
  rw [hcount, hsplit, List.take_left, List.drop_left]
  exact ⟨blanks, cr, lf, rfl, hblanks, hys, hcr', hlf'⟩

/-- What stands behind the text that is left does not matter, if it begins with no blank. -/
theorem Dropped.append (h : Dropped dropped left)
    (hbehind : behind.head? ∉ [some ' ', some '\t', some '\r', some '\n']) :
    Dropped dropped (left ++ behind) := by
  have hhead : ∀ {xs : List Char} {c : Char}, c ∈ [' ', '\t', '\r', '\n'] → xs.head? ≠ some c →
      (xs ++ behind).head? ≠ some c := by
    intro xs c hc hne heq
    cases xs with
    | nil =>
      rw [List.nil_append] at heq
      exact hbehind (heq ▸ List.mem_map_of_mem (f := some) hc)
    | cons x xs => exact hne heq
  obtain ⟨blanks, cr, lf, hdropped, hblanks, hleft, hcr, hlf⟩ := h
  simp only [List.mem_cons, List.not_mem_nil, or_false, not_or] at hleft
  refine ⟨blanks, cr, lf, hdropped, hblanks, ?_, hcr.imp_right fun h => ⟨h.1, ?_⟩,
    hlf.imp_right fun h => ⟨h.1, hhead (by simp) h.2⟩⟩
  · rw [← List.append_assoc lf, ← List.append_assoc cr]
    simp only [List.mem_cons, List.not_mem_nil, or_false, not_or]
    exact ⟨hhead (by simp) hleft.1, hhead (by simp) hleft.2⟩
  · rw [← List.append_assoc]
    exact hhead (by simp) h.2

/-! ### Places -/

theorem Position.advance_of_no_lineFeed (p : Position) (h : '\n' ∉ cs) :
    p.advance cs = ⟨p.offset + cs.length, p.line, p.column + cs.length⟩ := by
  induction cs generalizing p with
  | nil => rfl
  | cons c cs ih =>
    obtain ⟨hc, hcs⟩ := not_or.1 (List.mem_cons.not.1 h)
    rw [Position.advance_cons, ih _ hcs, Position.step, if_neg (Ne.symm hc), List.length_cons]
    refine Position.mk.injEq .. |>.mpr ⟨?_, rfl, ?_⟩ <;> show _ + 1 + _ = _ + (_ + 1) <;> omega

theorem Dropped.advance (h : Dropped dropped left) (p : Position) :
    p.advance dropped = if dropped.contains '\n' then ⟨p.offset + dropped.length, p.line + 1, 0⟩
      else ⟨p.offset + dropped.length, p.line, p.column + dropped.length⟩ := by
  obtain ⟨blanks, cr, lf, rfl, hblanks, -, hcr, hlf⟩ := h
  have hnone : '\n' ∉ blanks ++ cr := by
    intro hmem
    rcases List.mem_append.1 hmem with hmem | hmem
    · rcases hblanks _ hmem with heq | heq <;> cases heq
    · rcases hcr with rfl | ⟨rfl, -⟩
      · exact absurd (List.mem_singleton.1 hmem) (by decide)
      · exact absurd hmem List.not_mem_nil
  rw [← List.append_assoc]
  rcases hlf with rfl | ⟨rfl, -⟩
  · have hlength : (blanks ++ cr ++ ['\n']).length = (blanks ++ cr).length + 1 := List.length_append
    rw [if_pos (by simp), Position.advance_append, Position.advance_of_no_lineFeed p hnone, hlength,
      Position.advance_cons, Position.advance_nil, Position.step, if_pos rfl]
    rfl
  · rw [List.append_nil, if_neg (by simpa using hnone), Position.advance_of_no_lineFeed p hnone]

/-! ### Slices -/

/-- A consequence is what a text has behind `opening` up to the first `end` among the tokens behind
that, or to the end of the text, without the blanks at its beginning. -/
structure Consequence.CutFrom (text : String) (opening : Token) (behind : List Token)
    (c : Consequence) (a b : Nat) : Prop where
  start : c.location.start = some a
  stop : c.location.stop = some b
  order : opening.stop ≤ a ∧ a ≤ b
  text_eq : c.text = Text.slice text a b
  ends :
      b = ((behind.find? fun t => decide (t.kind = .keyword .end_)).map (·.start)).getD text.length
  dropped : Dropped (Text.slice text opening.stop a).toList (text.toList.drop a)
  line : c.location.line = some (lineAt text a)
  column : c.location.column = some (columnAt text a)

namespace Parser

variable {s t : State} {c : Consequence} {ks ns ms : List Piece} {x : Piece}

theorem line_column_of_prefix (h : cs <+: text.toList) :
    (Position.advance {} cs).line = lineAt text cs.length ∧
      (Position.advance {} cs).column = columnAt text cs.length := by
  rw [Position.advance_eq, lineAt, columnAt, ← List.prefix_iff_eq_take.1 h]
  exact ⟨rfl, rfl⟩

/-- Behind a consequence nothing stands, or the word `end`. -/
theorem head?_letters (hlexemes : lexemes hashComments text.toList = ks ++ ms)
    (hend : ∀ x, ms.head? = some x → x.1 = .keyword .end_) :
    (letters ms).head? ∉ [some ' ', some '\t', some '\r', some '\n'] := by
  cases ms with
  | nil => decide
  | cons x ms =>
    obtain rfl := spelled_of_lexemes hlexemes (hend x rfl)
    show (some 'e' : Option Char) ∉ _
    decide

/-- Among the tokens of some pieces the first `end` is where the others before it end. -/
theorem find?_located {p : Position} (hns : ∀ y ∈ ns, y.1 ≠ .keyword .end_)
    (hend : ∀ y, ms.head? = some y → y.1 = .keyword .end_) :
    ((located p (ns ++ ms)).find? fun t => decide (t.kind = .keyword .end_)).map (·.start) =
      ms.head?.map fun _ => p.offset + (letters ns).length := by
  have hnone : (located p ns).find? (fun t => decide (t.kind = .keyword .end_)) = none := by
    refine List.find?_eq_none.2 fun t ht => ?_
    obtain ⟨cs, hmem, -⟩ := kind_text_of_located ht
    simpa using hns _ hmem
  rw [located_append, List.find?_append, hnone, Option.none_or]
  cases ms with
  | nil => rfl
  | cons y ms =>
    obtain ⟨kind, cs⟩ := y
    obtain rfl : kind = .keyword .end_ := hend _ rfl
    rw [located, List.find?_cons]
    exact congrArg some (Position.offset_advance p (letters ns))

/-- The characters behind `then` and where they stand make a consequence. -/
theorem cutFrom_of_text {front body rear : List Char} {opening : Token} {behind : List Token}
    (htext : text.toList = front ++ (body ++ rear)) (hstop : opening.stop = front.length)
    (hline : opening.line = (Position.advance {} front).line)
    (hcolumn : opening.column + opening.text.length = (Position.advance {} front).column)
    (hrear : rear.head? ∉ [some ' ', some '\t', some '\r', some '\n'])
    (hends : ((behind.find? fun t => decide (t.kind = .keyword .end_)).map (·.start)).getD
      text.length = front.length + body.length) :
    (consequenceOf opening (String.ofList body)).CutFrom text opening behind
      (front.length + leadingBlanks body) (front.length + body.length) := by
  have hle := leadingBlanks_le_length body
  have hdropped := dropped_leadingBlanks body
  have hlength : (body.take (leadingBlanks body)).length = leadingBlanks body :=
    List.length_take_of_le hle
  -- the text up to where the consequence begins
  have hbefore : front ++ body.take (leadingBlanks body) <+: text.toList := by
    refine ⟨body.drop (leadingBlanks body) ++ rear, ?_⟩
    rw [htext, List.append_assoc, ← List.append_assoc (body.take _), List.take_append_drop]
  have htake := (List.prefix_iff_eq_take.1 hbefore).symm
  have hplace := line_column_of_prefix hbefore
  rw [List.length_append, hlength] at htake hplace
  have hdrop : text.toList.drop (front.length + leadingBlanks body) =
      body.drop (leadingBlanks body) ++ rear := by
    rw [htext, ← List.drop_drop, List.drop_left, List.drop_append_of_le_length hle]
  have hcs : (String.ofList body).toList = body := String.toList_ofList
  rw [Position.advance_append, hdropped.advance, ← hline, ← hcolumn, hlength] at hplace
  unfold consequenceOf
  dsimp only
  rw [hcs]
  refine ⟨?_, ?_, ⟨by omega, by omega⟩, ?_, hends.symm, ?_, ?_, ?_⟩
  · rw [hstop]
  · rw [hstop]
  · apply String.toList_injective
    rw [Text.toList_slice, String.toList_ofList, htext, ← List.append_assoc, ← List.length_append,
      List.take_left, ← List.drop_drop, List.drop_left]
  · rw [Text.toList_slice, htake, hstop, List.drop_left, hdrop]
    exact hdropped.append hrear
  · rw [← hplace.1]
    split <;> rfl
  · rw [← hplace.2]
    split
    · rfl
    · rfl

theorem exists_beforeEnd {p : Position} {ls : List Piece}
    (hplain : ∀ t ∈ located p ls, t.kind ≠ .endOfInput) :
    ∃ ns ms, ls = ns ++ ms ∧ beforeEnd (located p ls) = located p ns ∧
      (∀ y ∈ ns, y.1 ≠ .keyword .end_) ∧ ∀ y, ms.head? = some y → y.1 = .keyword .end_ := by
  have hsplit : located p ls = beforeEnd (located p ls) ++
      (located p ls).dropWhile fun t => decide (t.kind ∉ [TokenKind.keyword .end_, .endOfInput]) :=
    List.takeWhile_append_dropWhile.symm
  obtain ⟨ns, ms, rfl, hns, hms⟩ := located_eq_append hsplit
  refine ⟨ns, ms, rfl, hns, fun y hy => ?_, fun y hy => ?_⟩
  · rw [← map_piece_located p ns, ← hns] at hy
    obtain ⟨t, ht, rfl⟩ := List.mem_map.1 hy
    unfold beforeEnd at ht
    have hbefore := List.mem_takeWhile_imp ht
    exact fun hkind => of_decide_eq_true hbefore (List.mem_cons.2 (.inl hkind))
  · rw [← map_piece_located (p.advance (letters ns)) ms, ← hms, List.head?_map] at hy
    obtain ⟨t, ht, rfl⟩ := Option.map_eq_some_iff.1 hy
    have hnot := List.head?_dropWhile_not
      (fun t : Token => decide (t.kind ∉ [TokenKind.keyword .end_, .endOfInput]))
      (located p (ns ++ ms))
    rw [ht] at hnot
    have hkind : t.kind ∈ [TokenKind.keyword .end_, .endOfInput] :=
      Decidable.not_not.1 (of_decide_eq_false hnot)
    have hmem := (List.dropWhile_suffix _).subset (List.mem_of_mem_head? ht)
    exact (List.mem_cons.1 hkind).resolve_right fun hend =>
      hplain t hmem (List.mem_singleton.1 hend)

theorem cutFrom_of_lexemes {opening : Token} {p : Position}
    (hlexemes : lexemes hashComments text.toList = ks ++ .keyword .then_ :: (ns ++ ms))
    (hopening : opening =
      Token.at (Position.advance {} (letters ks)) (.keyword .then_) Keyword.then_.text.toList)
    (hp : (Position.advance {} (letters ks)).advance Keyword.then_.text.toList = p)
    (hns : ∀ y ∈ ns, y.1 ≠ .keyword .end_) (hend : ∀ y, ms.head? = some y → y.1 = .keyword .end_) :
    ∃ a b, (consequenceOf opening (String.ofList (letters ns))).CutFrom text opening
      (located p (ns ++ ms)) a b := by
  have htext :
      text.toList = (letters ks ++ Keyword.then_.text.toList) ++ (letters ns ++ letters ms) := by
    rw [← @letters_lexemes hashComments text.toList, hlexemes, letters_append, letters_cons,
      letters_append, List.append_assoc]
    rfl
  have hfront : Position.advance {} (letters ks ++ Keyword.then_.text.toList) = p := by
    rw [Position.advance_append, hp]
  have hoffset : p.offset = (letters ks ++ Keyword.then_.text.toList).length := by
    rw [← hfront, Position.offset_advance]
    exact Nat.zero_add _
  have hkeyword := Position.advance_of_no_lineFeed (Position.advance {} (letters ks))
    (show '\n' ∉ Keyword.then_.text.toList by decide)
  rw [hp] at hkeyword
  refine ⟨_, _, cutFrom_of_text htext ?_ ?_ ?_ ?_ ?_⟩
  · rw [hopening, ← hoffset, ← hp]
    rfl
  · rw [hfront, hkeyword, hopening]
    rfl
  · rw [hfront, hkeyword, hopening]
    rfl
  · have hsplit : lexemes hashComments text.toList = (ks ++ .keyword .then_ :: ns) ++ ms := by
      rw [hlexemes, List.append_assoc]
      rfl
    exact head?_letters hsplit hend
  · rw [find?_located hns hend, hoffset]
    cases ms with
    | nil =>
      have hlength := congrArg List.length htext
      rw [String.length_toList, letters_nil, List.append_nil, List.length_append] at hlength
      exact hlength
    | cons y ms => rfl

theorem consequence_cutFrom (hs : s.Earnest hashComments text) (h : consequence s = .ok c t) :
    s.cursor.current.kind = .keyword .then_ ∧ ∃ before taken left a b,
      tokens hashComments text = before ++ s.cursor.current :: (taken ++ left) ∧
      c.CutFrom text s.cursor.current (taken ++ left) a b ∧ t.Matched ∧ t.cursor.rest = left ∧
      ∀ x, left.head? = some x → x.kind = .keyword .end_ := by
  have hk : s.cursor.current.kind = .keyword .then_ := by
    by_contra hne
    rw [consequence_of_ne hne] at h
    cases h
  rw [consequence_eq hk] at h
  obtain ⟨rfl, rfl⟩ := EStateM.Result.ok.inj h
  obtain ⟨ks, kind, cs, ls, hlexemes, hcurrent, hrest, -⟩ :=
    exists_lexemes_current hs.cursor (by rw [hk]; simp)
  have hkind : kind = .keyword .then_ := by
    rw [hcurrent] at hk
    exact hk
  obtain ⟨rfl, rfl⟩ := Prod.mk.inj (spelled_of_lexemes hlexemes hkind)
  -- `p` is the place behind `then`, from which on the tokens are those of the pieces that are left
  generalize hp : (Position.advance {} (letters ks)).advance Keyword.then_.text.toList = p at hrest
  have htokens : tokens hashComments text =
      located {} ks ++ s.cursor.current :: s.advanced.cursor.rest := by
    rw [tokens, hlexemes, located_append, hrest, hcurrent, ← hp]
    rfl
  have hplain : ∀ t ∈ located p ls, t.kind ≠ .endOfInput := fun t ht => by
    rw [hrest] at htokens
    exact kind_ne_of_mem_tokens (htokens ▸ List.mem_append_right _ (List.mem_cons_of_mem _ ht))
  obtain ⟨ns, ms, rfl, hbefore, hns, hend⟩ := exists_beforeEnd hplain
  have hmoved := Cursor.rest_moved (hrest.trans (located_append p ns ms))
  obtain ⟨a, b, hcut⟩ := cutFrom_of_lexemes hlexemes hcurrent hp hns hend
  rw [hrest, hbefore, spell_located]
  rw [hrest, located_append] at htokens
  rw [located_append] at hcut
  refine ⟨hk, located {} ks, located p ns, located (p.advance (letters ns)) ms, a, b, htokens, hcut,
    matched_advanced s, hmoved, fun x hx => ?_⟩
  have hpiece := congrArg List.head? (map_piece_located (p.advance (letters ns)) ms)
  rw [List.head?_map, hx] at hpiece
  exact hend _ hpiece.symm

/-! ### Rules -/

section Rules

variable {rule : Rule} {r : Harvest Rule}

def missingEnd (text : String) : ParseError :=
  .mismatchedToken (.keyword .end_) (Token.endOfInput (finish text))

theorem closing_of_ne (h : s.cursor.current.kind ≠ .keyword .end_) :
    closing s = .error (.recognition (.mismatchedToken (.keyword .end_) s.cursor.current)) s := by
  have hend :
      keyword .end_ s = .error (.recognition (.mismatchedToken (.keyword .end_) s.cursor.current))
      s :=
    (expect_eq _ s).trans (if_neg h)
  exact bind_of_error hend

theorem ruleConsequence_ok (hnone : rule.consequence = {}) (h : ruleConsequence rule s = .ok r t)
    (hstart : r.found.consequence.location.start ≠ none) :
    ∃ c u, consequence s = .ok c u ∧ r.found = { rule with consequence := c } ∧
      (closing u = .ok () t ∨ ∃ e, r.failure = some e ∧ closing u = .error (.recognition e) t) := by
  obtain ⟨x, u, hu, h⟩ := bind_eq_ok.1 h
  rcases harvest_ok hu with ⟨c, hc, rfl⟩ | ⟨e, -, rfl⟩
  · refine ⟨c, u, hc, ?_⟩
    change harvest { rule with consequence := c } closing (fun rule _ => rule) u = _ at h
    rcases harvest_ok h with ⟨_, hclosing, rfl⟩ | ⟨e, hclosing, rfl⟩
    · exact ⟨rfl, .inl hclosing⟩
    · exact ⟨rfl, .inr ⟨e, rfl, hclosing⟩⟩
  · obtain ⟨rfl, -⟩ := pure_ok h
    rw [hnone] at hstart
    exact absurd rfl hstart

theorem ruleBody_consequence (hnone : rule.consequence = {}) (h : ruleBody rule s = .ok r t)
    (hstart : r.found.consequence.location.start ≠ none) :
    ∃ u v, s.Evolves u ∧ consequence u = .ok r.found.consequence v ∧
      (closing v = .ok () t ∨ ∃ e, r.failure = some e ∧ closing v = .error (.recognition e) t) := by
  obtain ⟨x, u, hu, h⟩ := bind_eq_ok.1 h
  obtain ⟨y, v, hv, h⟩ := bind_eq_ok.1 h
  have hx : x.found.consequence = {} := by
    obtain ⟨attributes, hx⟩ := ruleAttributes_found hu
    rw [hx, hnone]
  have hy : y.found.consequence = {} := by
    rcases andThen_ok hv with hv | ⟨rfl, -⟩
    · obtain ⟨conditions, hy⟩ := ruleConditions_found hv
      rw [hy, hx]
    · exact hx
  rcases andThen_ok h with h | ⟨rfl, -⟩
  · obtain ⟨c, w, hc, hfound, hclosing⟩ := ruleConsequence_ok hy h hstart
    refine ⟨v, w, (Orderly.evolves_ok _ hu).trans (Orderly.evolves_ok _ hv), ?_, hclosing⟩
    rw [hfound]
    exact hc
  · rw [hy] at hstart
    exact absurd rfl hstart

theorem ruleBody_missingEnd (hs : s.Earnest hashComments text) (hv : s.Evolves u) (hm : u.Matched)
    (hrest : u.cursor.rest = []) {v w : State}
    (hclosing : closing u = .ok () v ∨ ∃ e, r.failure = some e ∧
      closing u = .error (.recognition e) v)
    (hrecover : r.failure = none ∧ w = v ∨ ∃ e, r.failure = some e ∧
      recoverFrom e ruleFollow v = .ok () w) :
    ∃ (c : Collector) (ruleName : Option String), c.recovering = false ∧
      w.collector = c.report (missingEnd text) ruleName := by
  have hu := hs.evolves hv
  have hcurrent : u.cursor.current = Token.endOfInput (finish text) := by
    rw [Cursor.current_of_rest_nil hrest, hu.cursor, ofTokens_eq]
    rfl
  have hmissing : closing u = .error (.recognition (missingEnd text)) u := by
    rw [closing_of_ne (by rw [hcurrent]; simp [Token.endOfInput]), hcurrent]
    rfl
  rw [hmissing] at hclosing
  rcases hclosing with h | ⟨e, hfailure, h⟩
  · cases h
  cases h
  rcases hrecover with ⟨hnone, -⟩ | ⟨e, hfailure', hrecover⟩
  · rw [hfailure] at hnone
    cases hnone
  rw [hfailure] at hfailure'
  cases hfailure'
  rw [recoverFrom_eq, if_neg (by rw [hu.trials]; exact Nat.lt_irrefl 0)] at hrecover
  cases hrecover
  exact ⟨u.collector, u.ruleName, hm hu.trials, rfl⟩

end Rules

theorem ruleStatement_consequence (hs : s.Earnest hashComments text) {r : Rule}
    (h : ruleStatement s = .ok r t) {a : Nat} (hstart : r.consequence.location.start = some a) :
    ∃ before opening behind b, tokens hashComments text = before ++ opening :: behind ∧
      opening.kind = .keyword .then_ ∧
      (∃ first, r.location.start = some first ∧ first ≤ opening.start) ∧
      r.consequence.CutFrom text opening behind a b ∧
      ((∀ t ∈ behind, t.kind ≠ .keyword .end_) →
        ∃ (c : Collector) (ruleName : Option String), c.recovering = false ∧
          (c.report (missingEnd text) ruleName).Extends t.collector) := by
  obtain ⟨begun, u, w, -, hnone, hlocation, hsu, hw, hwt⟩ := ruleStatement_ok h
  obtain ⟨x, v, w', l, hbody, hrecover, rfl, hl, rfl⟩ := recovering_cases hw
  obtain ⟨y, z, huy, hconsequence, hclosing⟩ := ruleBody_consequence hnone hbody
    (fun hno => by rw [hstart] at hno; cases hno)
  have hu : (u.named begun.name).Earnest hashComments text :=
    ⟨(hs.evolves hsu).cursor, (hs.evolves hsu).trials⟩
  have hy := hu.evolves huy
  obtain ⟨hthen, before, taken, left, a', b, htokens, hcut, hm, hrest, hleft⟩ :=
    consequence_cutFrom hy hconsequence
  obtain rfl : a' = a := Option.some.inj (hcut.start.symm.trans hstart)
  refine ⟨before, y.cursor.current, taken ++ left, b, htokens, hthen,
    ⟨s.cursor.current.start, ?_, ?_⟩, hcut, fun hno => ?_⟩
  · exact hl.trans (congrArg Location.start hlocation)
  · exact Nat.le_trans (State.Onward.of_evolves hs.cursor_over hsu).coming_le
      (State.Onward.of_evolves hu.cursor_over huy).coming_le
  · have hnil : left = [] := by
      cases left with
      | nil => rfl
      | cons x left =>
        exact absurd (hleft x rfl) (hno x (List.mem_append_right _ List.mem_cons_self))
    obtain ⟨c, ruleName, hc, hreport⟩ :=
      ruleBody_missingEnd hy (Orderly.evolves_ok _ hconsequence) hm
      (hrest.trans hnil) hclosing hrecover
    exact ⟨c, ruleName, hc, hreport ▸ hwt.collector⟩

end Parser

/-- An error is among the diagnostics, or as many diagnostics as may be are there without it. -/
def ParseResult.Accounts (settings : Settings) (x : ParseResult) (e : ParseError) : Prop :=
  (∃ ruleName, Diagnostic.ofToken e.kind x.sourceName e.message e.token? ruleName ∈ x.errors) ∨
    ∃ n, settings.maxErrors = some n ∧ n ≤ x.errors.length

/-- The consequence of a rule is the text between its `then` and the next `end`. -/
theorem consequences_cut {settings : Settings} {sourceName : String} {x : ParseResult}
    (h : parse frames settings sourceName text = .ok x) {r : Rule} (hr : .rule r ∈ x.package.rules)
    {a : Nat} (hstart : r.consequence.location.start = some a) :
    ∃ before opening behind b, tokens settings.hashComments text = before ++ opening :: behind ∧
      opening.kind = .keyword .then_ ∧
      (∃ first, r.location.start = some first ∧ first ≤ opening.start) ∧
      r.consequence.CutFrom text opening behind a b ∧
      ((∀ t ∈ behind, t.kind ≠ .keyword .end_) → x.Accounts settings (missingEnd text)) := by
  have hidle := idle_ofText frames settings sourceName text
  have hearnest : (State.ofText frames settings sourceName text).Earnest settings.hashComments
      text := ⟨rfl, rfl⟩
  obtain ⟨t, hunit, hst, herrors, hname⟩ := exists_unit h
  obtain ⟨hrules, hrecorded⟩ := compilationUnit_recorded hidle rfl hunit
  obtain ⟨u, v, -, hsu, hread, hvt⟩ := hrecorded (.rule r) (hrules ▸ hr)
  cases hread with
  | rule hread =>
    obtain ⟨before, opening, behind, b, htokens, hthen, hfirst, hcut, hmissing⟩ :=
      ruleStatement_consequence (hearnest.evolves hsu) hread hstart
    refine ⟨before, opening, behind, b, htokens, hthen, hfirst, hcut, fun hno => ?_⟩
    obtain ⟨c, ruleName, hc, hextends⟩ := hmissing hno
    -- the report either was recorded then, or there was no room, and there is none now
    have hall := hextends.trans hvt.collector
    have hsame := (Collector.extends_report c (missingEnd text) ruleName)
    rcases Collector.mem_report hc (missingEnd text) ruleName with hfull | hmem
    · obtain ⟨n, hn, hle⟩ := (hsame.trans hall).isFull hfull
      exact .inr ⟨n, hst.collector.maxErrors.symm.trans hn, herrors ▸ hle⟩
    · refine .inl ⟨ruleName, ?_⟩
      have hsource : x.sourceName = c.sourceName :=
        hname.trans (hst.collector.sourceName.symm.trans (hsame.trans hall).sourceName)
      rw [hsource, herrors]
      exact hall.errors.subset hmem

def hasRule (frames : Nat) (settings : Settings) (text : String) (p : Rule → Bool) : Bool :=
  (parse frames settings "" text).toOption.any fun x => x.package.rules.any fun
    | .rule r => p r
    | .query _ => false

theorem exists_of_hasRule {settings : Settings} {p : Rule → Bool}
    (h : hasRule frames settings text p = true) :
    ∃ x r, parse frames settings "" text = .ok x ∧ .rule r ∈ x.package.rules ∧ p r = true := by
  unfold hasRule at h
  cases hparse : parse frames settings "" text with
  | error f => rw [hparse] at h; cases h
  | ok x =>
    rw [hparse] at h
    obtain ⟨e, he, h⟩ := List.any_eq_true.1 h
    cases e with
    | rule r => exact ⟨x, r, rfl, he, h⟩
    | query q => cases h

theorem consequences_cut_quotedEnd :
    ∃ x r, parse 900 {} "" "rule R when A() then \t\r\n  log(\"end\"); # end\n  end rule Q then" =
      .ok x ∧ .rule r ∈ x.package.rules ∧ r.consequence.location.start = some 24 ∧
      ∃ before opening behind b,
        tokens true "rule R when A() then \t\r\n  log(\"end\"); # end\n  end rule Q then" =
          before ++ opening :: behind ∧
        r.consequence.CutFrom "rule R when A() then \t\r\n  log(\"end\"); # end\n  end rule Q then"
          opening behind 24 b := by
  have hfound : hasRule 900 {} "rule R when A() then \t\r\n  log(\"end\"); # end\n  end rule Q then"
      (fun r => decide (r.consequence.location.start = some 24)) = true := by
    decide +kernel
  obtain ⟨x, r, hx, hr, hstart⟩ := exists_of_hasRule hfound
  obtain ⟨before, opening, behind, b, htokens, -, -, hcut, -⟩ :=
    consequences_cut hx hr (of_decide_eq_true hstart)
  exact ⟨x, r, hx, hr, of_decide_eq_true hstart, before, opening, behind, b, htokens, hcut⟩

end Rulebook
