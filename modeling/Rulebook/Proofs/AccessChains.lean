import Rulebook.Proofs.Balanced
import Rulebook.Proofs.Bounds
import Rulebook.Proofs.Provenance
import Rulebook.Proofs.TwinSources

/-!
# Access chains as they are written

The accesses of a retrieval are written one behind the other: a dot before a member, parentheses
around arguments, brackets around an index. Main statement: a retrieval so written is its source
text without the trivia outside of arguments and indexes, so no access of a chain is lost, merged
with another or moved.
-/

namespace Rulebook

variable {frames : Nat}

open Rulebook.Parser

/-! ### Writing an access chain -/

def delimited (opening closing : Symbol) : Option String → String
  | none => ""
  | some code => opening.text ++ code ++ closing.text

def Access.written : Access → String
  | .field _ name index =>
    (if name = "" then "" else Symbol.dot.text ++ name) ++ delimited .lbracket .rbracket index
  | .method _ name arguments =>
    Symbol.dot.text ++ name ++ delimited .lparen .rparen (some arguments)

/-- An access chain as it is written, behind the name at its head. -/
def Accessor.written (a : Accessor) : String :=
  a.head ++ delimited .lparen .rparen a.arguments ++ String.join (a.chain.map Access.written)

/-! ### Trivia outside of captured code -/

/-- Where a token of an access chain is: outside of captured code, or in it with some pairs open. -/
inductive Region where
  | outside
  | within (d : Delimiter) (pairs : Int)

/-- Where the token behind a token is. Outside, a parenthesis or bracket opens captured code. -/
def Region.next : Region → Token → Region
  | .outside, t =>
    if t.kind = .symbol .lparen then .within .paren 1
    else if t.kind = .symbol .lbracket then .within .square 1
    else .outside
  | .within d n, t =>
    if n + weight d.opening d.closing t = 0 then .outside
    else .within d (n + weight d.opening d.closing t)

def Region.behind (region : Region) (ts : List Token) : Region := ts.foldl Region.next region

def kept : Region → List Token → List Token
  | _, [] => []
  | .outside, t :: ts => (if t.isTrivia then [] else [t]) ++ kept (Region.next .outside t) ts
  | .within d n, t :: ts => t :: kept (Region.next (.within d n) t) ts

/-- A text without the trivia that is outside of captured code. -/
def withoutOuterTrivia (hashComments : Bool) (text : String) : String :=
  spell (kept .outside (tokens hashComments text))

namespace Region

variable {region : Region} {t : Token} {ts us : List Token} {d : Delimiter} {n : Int}

theorem behind_cons : region.behind (t :: ts) = (region.next t).behind ts := rfl

theorem behind_append : region.behind (ts ++ us) = (region.behind ts).behind us :=
  List.foldl_append ..

theorem kept_append : kept region (ts ++ us) = kept region ts ++ kept (region.behind ts) us := by
  induction ts generalizing region with
  | nil => cases region <;> rfl
  | cons t ts ih =>
    cases region with
    | outside => rw [List.cons_append, kept, kept, ih, List.append_assoc, behind_cons]
    | within d n => rw [List.cons_append, kept, kept, ih, List.cons_append, behind_cons]

theorem ne_symbol_of_trivia (ht : t.isTrivia = true) (k : Symbol) :
    t.kind ≠ .symbol k := fun hk => by
  rw [Token.isTrivia, hk] at ht
  cases ht

theorem next_of_trivia (ht : t.isTrivia = true) : Region.next .outside t = .outside := by
  rw [next, if_neg (ne_symbol_of_trivia ht _), if_neg (ne_symbol_of_trivia ht _)]

theorem trivia_dropped (h : visible ts = []) :
    kept .outside ts = [] ∧ Region.behind .outside ts = .outside := by
  induction ts with
  | nil => exact ⟨rfl, rfl⟩
  | cons t ts ih =>
    cases ht : t.isTrivia with
    | false =>
      rw [visible_cons_of_not_trivia ht] at h
      cases h
    | true =>
      rw [visible_cons_of_trivia ht] at h
      obtain ⟨hkept, hbehind⟩ := ih h
      rw [kept, if_pos ht, next_of_trivia ht, hkept, behind_cons, next_of_trivia ht, hbehind]
      exact ⟨rfl, rfl⟩

def Open : Region → Prop
  | .outside => True
  | .within _ n => n ≠ 0

theorem open_next (region : Region) (t : Token) : (region.next t).Open := by
  cases region with
  | outside =>
    rw [next]
    split
    · exact Int.one_ne_zero
    · split
      · exact Int.one_ne_zero
      · exact True.intro
  | within d n =>
    rw [next]
    split
    · exact True.intro
    · next hopen => exact hopen

theorem open_behind (h : region.Open) (ts : List Token) : (region.behind ts).Open := by
  induction ts generalizing region with
  | nil => exact h
  | cons t ts ih => exact ih (open_next region t)

/-- Trivia closes no captured code. -/
theorem outside_of_behind (hopen : region.Open) (h : visible ts = [])
    (hbehind : region.behind ts = .outside) : region = .outside := by
  cases region with
  | outside => rfl
  | within d n =>
    have hall : ∀ us : List Token, visible us = [] →
        Region.behind (.within d n) us = .within d n := by
      intro us hus
      induction us with
      | nil => rfl
      | cons u us ih =>
        cases hu : u.isTrivia with
        | false =>
          rw [visible_cons_of_not_trivia hu] at hus
          cases hus
        | true =>
          rw [visible_cons_of_trivia hu] at hus
          have hsame : Region.next (.within d n) u = .within d n := by
            rw [next, weight_of_other (ne_symbol_of_trivia hu _) (ne_symbol_of_trivia hu _),
              Int.add_zero, if_neg hopen]
          rw [behind_cons, hsame, ih hus]
    rw [hall ts h] at hbehind
    cases hbehind

theorem balance_cons (d : Delimiter) (t : Token) (ts : List Token) :
    d.balance (t :: ts) = weight d.opening d.closing t + d.balance ts := rfl

theorem kept_of_opened (h : ∀ us, us <+: ts → us ≠ [] → n + d.balance us ≠ 0) :
    kept (.within d n) ts = ts ∧ Region.behind (.within d n) ts = .within d (n + d.balance ts) := by
  induction ts generalizing n with
  | nil => exact ⟨rfl, congrArg (Region.within d) (Int.add_zero n).symm⟩
  | cons t ts ih =>
    have hopen : n + weight d.opening d.closing t ≠ 0 := by
      have hone := h [t] (List.prefix_append [t] ts) (List.cons_ne_nil _ _)
      rwa [balance_cons, show d.balance [] = 0 from rfl, Int.add_zero] at hone
    have hrest : ∀ us, us <+: ts → us ≠ [] →
        n + weight d.opening d.closing t + d.balance us ≠ 0 := by
      intro us hus _
      have hmore := h (t :: us) (List.cons_prefix_cons.2 ⟨rfl, hus⟩) (List.cons_ne_nil _ _)
      rwa [balance_cons, ← Int.add_assoc] at hmore
    obtain ⟨hkept, hbehind⟩ := ih hrest
    rw [kept, behind_cons, next, if_neg hopen, hkept, hbehind, balance_cons, Int.add_assoc]
    exact ⟨rfl, rfl⟩

theorem kept_of_closesAt (hd : d = .paren ∨ d = .square) {first last : Token} {inner : List Token}
    (hfirst : first.kind = .symbol d.opening) (hopened : d.Opened (first :: inner))
    (hclosed : d.balance (first :: inner ++ [last]) = 0) :
    kept .outside (first :: (inner ++ [last])) = first :: (inner ++ [last]) ∧
      Region.behind .outside (first :: (inner ++ [last])) = .outside := by
  have hnext : Region.next .outside first = .within d 1 := by
    rcases hd with rfl | rfl
    · exact if_pos hfirst
    · exact (if_neg (by rw [hfirst]; decide)).trans (if_pos hfirst)
  have hvisible : first.isTrivia = false := by rw [Token.isTrivia, hfirst]; rfl
  have hbalance : ∀ us, d.balance (first :: us) = 1 + d.balance us := fun us => by
    rw [balance_cons, weight_of_opening hfirst]
  have hopen : ∀ us, us <+: inner → us ≠ [] → 1 + d.balance us ≠ 0 := fun us hus _ => by
    rw [← hbalance]
    exact hopened _ (List.cons_prefix_cons.2 ⟨rfl, hus⟩) (List.cons_ne_nil _ _)
  obtain ⟨hkept, hbehind⟩ := kept_of_opened hopen
  have hlast : (Region.within d (1 + d.balance inner)).next last = .outside := by
    rw [d.balance_concat, hbalance] at hclosed
    rw [next, if_pos hclosed]
  rw [kept, hvisible, behind_cons, hnext, kept_append, behind_append, hkept, hbehind, kept,
    behind_cons, hlast]
  exact ⟨rfl, rfl⟩

theorem spell_kept_located (region : Region) (p q : Position) (ls : List (TokenKind × List Char)) :
    spell (kept region (located p ls)) = spell (kept region (located q ls)) := by
  induction ls generalizing region p q with
  | nil => rfl
  | cons l ls ih =>
    obtain ⟨kind, cs⟩ := l
    have hnext : region.next (Token.at p kind cs) = region.next (Token.at q kind cs) := by
      cases region <;> rfl
    cases region with
    | outside =>
      rw [located, located, kept, kept, spell_append, spell_append, hnext,
        ih _ (p.advance cs) (q.advance cs)]
      congr 1
      show spell (if kind.isTrivia then [] else [_]) = spell (if kind.isTrivia then [] else [_])
      split
      · rfl
      · rfl
    | within d n =>
      rw [located, located, kept, kept, spell_cons, spell_cons, hnext,
        ih _ (p.advance cs) (q.advance cs)]
      rfl

end Region

/-! ### Captured code -/

namespace Parser

variable {hashComments : Bool} {text : String} {s t u : State} {d : Delimiter}

/-! ### What a retrieval passes -/

/-- From one state to another a text is passed, trivia outside of captured code aside. -/
def State.Writes (s t : State) (w : String) : Prop :=
  ∃ ts, s.cursor.rest = ts ++ t.cursor.rest ∧ spell (kept .outside ts) = w ∧
    Region.behind .outside ts = .outside

theorem State.Writes.refl (s : State) : s.Writes s "" := ⟨[], rfl, rfl, rfl⟩

theorem State.Writes.trans {v w : String} (h : s.Writes t v) (h' : t.Writes u w) :
    s.Writes u (v ++ w) := by
  obtain ⟨ts, hrest, rfl, hbehind⟩ := h
  obtain ⟨us, hrest', rfl, hbehind'⟩ := h'
  refine ⟨ts ++ us, by rw [hrest, hrest', List.append_assoc], ?_, ?_⟩
  · rw [Region.kept_append, hbehind, spell_append]
  · rw [Region.behind_append, hbehind, hbehind']

/-- A list of tokens is passed that the next one begins and that leaves no code open. -/
theorem writes_of_rest {ts : List Token} (hk : s.cursor.current.kind ≠ .endOfInput)
    (hrest : s.advanced.cursor.rest = ts ++ t.cursor.rest)
    (hkept : kept .outside (s.cursor.current :: ts) = s.cursor.current :: ts)
    (hbehind : Region.behind .outside (s.cursor.current :: ts) = .outside) :
    s.Writes t (s.cursor.current.text ++ spell ts) := by
  obtain ⟨trivia, htrivia, hall, -⟩ := Cursor.rest_of_current hk
  obtain ⟨hnone, hstays⟩ := Region.trivia_dropped htrivia
  refine ⟨trivia ++ s.cursor.current :: ts, ?_, ?_, ?_⟩
  · rw [hall, show s.cursor.consume.rest = _ from hrest, List.append_assoc, List.cons_append]
  · rw [Region.kept_append, hnone, hstays, hkept]
    rfl
  · rw [Region.behind_append, hstays, hbehind]

section Earnest

variable (hs : s.Earnest hashComments text)

include hs

theorem faithful : s.cursor.Faithful := by
  rw [hs.cursor]
  exact (faithful_scan text).rewind _

/-- A token that opens no captured code is passed. -/
theorem writes_advanced (hk : s.cursor.current.kind ≠ .endOfInput)
    (hparen : s.cursor.current.kind ≠ .symbol .lparen)
    (hbracket : s.cursor.current.kind ≠ .symbol .lbracket) :
    s.Writes s.advanced s.cursor.current.text := by
  have hnext : Region.next .outside s.cursor.current = .outside :=
    (if_neg hparen).trans (if_neg hbracket)
  have hvisible := Cursor.current_not_trivia hs.hidden
  have hkept : kept .outside [s.cursor.current] = [s.cursor.current] := by
    rw [kept, hvisible, hnext]
    rfl
  have hwrites : s.Writes s.advanced (s.cursor.current.text ++ spell []) :=
    writes_of_rest hk rfl hkept hnext
  rwa [spell_nil, String.append_empty] at hwrites

theorem name_writes {token : Token} (h : name s = .ok token t) :
    s.Writes t token.text ∧ token.text ≠ "" := by
  rw [name_eq] at h
  split at h
  · next hname =>
    cases h
    have hkind : ∀ k : Symbol, s.cursor.current.kind ≠ .symbol k := fun k hk => by
      rw [Token.isName, hk] at hname
      cases hname
    have hend := Eager.ne_endOfInput_of_isName hname
    exact ⟨writes_advanced hs hend (hkind _) (hkind _), text_ne_of_mem_tokens (hs.current_mem hend)⟩
  · cases h

theorem chunk_writes (hd : d = .paren ∨ d = .square) {code : String}
    (h : (withoutDelimiters <$> d.chunk) s = .ok code t) :
    s.Writes t (delimited d.opening d.closing (some code)) := by
  obtain ⟨chunk, hchunk, rfl⟩ := map_eq_ok h
  obtain ⟨inner, last, -, hopening, hlast, hrest, hopened, hclosed, rfl⟩ := chunk_ok hchunk
  have hend : s.cursor.current.kind ≠ .endOfInput := by rw [hopening]; simp
  obtain ⟨hkept, hbehind⟩ := Region.kept_of_closesAt hd hopening hopened hclosed
  have hfirst := text_of_symbol_kind (hs.current_mem hend) hopening
  have hmem : last ∈ tokens hashComments text := by
    have hfront : s.advanced.cursor.front = s.cursor.front := Cursor.front_consume _
    rw [← hs.front, ← hfront]
    refine List.mem_of_mem_drop (i := s.advanced.cursor.index) ?_
    rw [show s.advanced.cursor.front.toList.drop s.advanced.cursor.index = _ from hrest]
    simp
  have hlast := text_of_symbol_kind hmem hlast
  have hwrites := writes_of_rest hend hrest hkept hbehind
  rw [spell_append, spell_cons, spell_nil, String.append_empty] at hwrites
  have hone : ∀ k ∈ [d.opening, d.closing], k.text.length = 1 := by
    rcases hd with rfl | rfl <;> decide
  rw [hfirst, hlast] at hwrites ⊢
  rw [delimited, withoutDelimiters_append (hone _ (by simp)) (hone _ (by simp)),
    String.append_assoc]
  exact hwrites

theorem arguments_writes {arguments : Option String} (h : arguments? s = .ok arguments t) :
    s.Writes t (delimited .lparen .rparen arguments) := by
  obtain ⟨_, _, hlook, h⟩ := bind_eq_ok.1 h
  cases hlook
  split at h
  · obtain ⟨code, hcode, rfl⟩ := map_eq_ok h
    exact chunk_writes (d := .paren) hs (.inl rfl) hcode
  · obtain ⟨rfl, rfl⟩ := pure_ok h
    exact .refl _

end Earnest

theorem written_index (chain : List Access) (bracket : Token) (index : String) (stop : Option Nat) :
    String.join ((Access.index chain bracket index stop).map Access.written) =
      String.join (chain.map Access.written) ++ delimited .lbracket .rbracket (some index) := by
  unfold Access.index
  split
  · next l name hlast =>
    obtain ⟨before, rfl⟩ := List.getLast?_eq_some_iff.1 hlast
    rw [List.dropLast_concat]
    simp [Access.written, delimited, String.join_append, String.append_assoc]
  · simp [Access.written, delimited, String.join_append]

theorem written_ofMember {name : String} (hname : name ≠ "") (location : Location)
    (arguments : Option String) :
    (Access.ofMember location name arguments).written =
      Symbol.dot.text ++ name ++ delimited .lparen .rparen arguments := by
  cases arguments with
  | none =>
    show (if name = "" then "" else Symbol.dot.text ++ name) ++ "" = _
    rw [if_neg hname]
    rfl
  | some arguments => rfl

theorem access_writes (hs : s.Earnest hashComments text) {chain more : List Access}
    (hk : s.cursor.current.kind ∈ [TokenKind.symbol .dot, .symbol .lbracket])
    (h : access chain s = .ok more t) :
    ∃ w, s.Writes t w ∧
      String.join (more.map Access.written) = String.join (chain.map Access.written) ++ w := by
  obtain ⟨_, _, hlook, h⟩ := bind_eq_ok.1 h
  cases hlook
  split at h
  · obtain ⟨index, u, hu, h⟩ := bind_eq_ok.1 h
    obtain ⟨stop, v, hv, h⟩ := bind_eq_ok.1 h
    cases hv
    obtain ⟨rfl, rfl⟩ := pure_ok h
    exact ⟨_, chunk_writes (d := .square) hs (.inr rfl) hu, written_index ..⟩
  · next hbracket =>
    have hdot : s.cursor.current.kind = .symbol .dot := by simpa [hbracket] using hk
    have hend : s.cursor.current.kind ≠ .endOfInput := by rw [hdot]; simp
    have hfirst := writes_advanced hs hend (by rw [hdot]; decide) hbracket
    rw [text_of_symbol_kind (hs.current_mem hend) hdot] at hfirst
    obtain ⟨_, u, hu, h⟩ := bind_eq_ok.1 h
    rw [advance_eq] at hu
    cases hu
    have hadvanced := hs.of_ok (advance_eq s)
    obtain ⟨member, _, hmember, h⟩ := bind_eq_ok.1 h
    cases hmember
    obtain ⟨token, v, hv, h⟩ := bind_eq_ok.1 h
    obtain ⟨hname, hne⟩ := name_writes hadvanced hv
    obtain ⟨arguments, w, hw, h⟩ := bind_eq_ok.1 h
    have harguments := arguments_writes (hadvanced.of_ok hv) hw
    obtain ⟨location, x, hx, h⟩ := bind_eq_ok.1 h
    obtain ⟨rfl, -⟩ := close_ok hx
    obtain ⟨rfl, rfl⟩ := pure_ok h
    refine ⟨_, (hfirst.trans hname).trans harguments, ?_⟩
    rw [List.map_append, String.join_append, List.map_singleton, String.join_cons, String.join_nil,
      String.append_empty, written_ofMember hne]

theorem accesses_writes (hs : s.Earnest hashComments text) {chain : List Access}
    (h : repeatWhile [] (fun _ => nextIs [.symbol .dot, .symbol .lbracket]) access s =
      .ok chain t) :
    s.Writes t (String.join (chain.map Access.written)) := by
  let I : State → List Access → Prop := fun u chain =>
    u.Earnest hashComments text ∧ s.Writes u (String.join (chain.map Access.written))
  have hnone : I s [] := ⟨hs, .refl s⟩
  refine (repeatWhile_invariant (I := I) ?_ ?_ hnone h).2
  · intro _ _ _ _ hlook
    cases hlook
    rfl
  · intro chain more u v hlook hchain hmore
    obtain ⟨w, hw, hwritten⟩ := access_writes hchain.1 (kind_of_nextIs hlook).2 hmore
    exact ⟨hchain.1.of_ok hmore, hwritten ▸ hchain.2.trans hw⟩

theorem retrieval_writes (hs : s.Earnest hashComments text) {r : Retrieval}
    (h : retrieval s = .ok r t) : s.Writes t r.accessor.written := by
  obtain ⟨_, _, hstart, h⟩ := bind_eq_ok.1 h
  cases hstart
  obtain ⟨head, u, hu, h⟩ := bind_eq_ok.1 h
  obtain ⟨arguments, v, hv, h⟩ := bind_eq_ok.1 h
  obtain ⟨chain, w, hw, h⟩ := bind_eq_ok.1 h
  obtain ⟨location, x, hx, h⟩ := bind_eq_ok.1 h
  obtain ⟨rfl, -⟩ := close_ok hx
  obtain ⟨_, _, hget, h⟩ := bind_eq_ok.1 h
  cases hget
  obtain ⟨rfl, rfl⟩ := pure_ok h
  have hafterHead := hs.of_ok hu
  exact ((name_writes hs hu).1.trans (arguments_writes hafterHead hv)).trans
    (accesses_writes (hafterHead.of_ok hv) hw)

theorem index_le_of_ahead {n : Nat} (h : n < s.cursor.ahead.length) :
    s.cursor.index ≤ s.cursor.front.size := by
  refine Nat.le_of_not_lt fun hlt => ?_
  have hrest : s.cursor.rest = [] := List.drop_eq_nil_of_le (by simpa using hlt.le)
  rw [Cursor.ahead, hrest] at h
  exact Nat.not_lt_zero n h

theorem retrieval_text (hs : s.Earnest hashComments text) {r : Retrieval}
    (h : retrieval s = .ok r t) :
    ∃ before ts after, s.cursor.rest = before ++ (ts ++ (after ++ t.cursor.rest)) ∧
      visible before = [] ∧ visible after = [] ∧ r.text = spell ts := by
  have hevolves := Orderly.evolves_ok _ h
  have hlt := Eager.shortens retrieval hs.hidden h
  have hsize : t.cursor.index ≤ s.cursor.front.size := by
    have hwithin : (after retrieval s).cursor.Within s.cursor.front :=
      Composed.within inferInstance ⟨rfl, index_le_of_ahead hlt⟩
    rw [after_of_ok h] at hwithin
    exact hwithin.index
  obtain ⟨_, _, hstart, h⟩ := bind_eq_ok.1 h
  cases hstart
  obtain ⟨head, u, hu, h⟩ := bind_eq_ok.1 h
  obtain ⟨arguments, v, hv, h⟩ := bind_eq_ok.1 h
  obtain ⟨chain, w, hw, h⟩ := bind_eq_ok.1 h
  obtain ⟨location, x, hx, h⟩ := bind_eq_ok.1 h
  obtain ⟨rfl, hlocation⟩ := close_ok hx
  obtain ⟨_, _, hget, h⟩ := bind_eq_ok.1 h
  cases hget
  obtain ⟨rfl, rfl⟩ := pure_ok h
  obtain ⟨before, ts, after, hrest, hbefore, hafter, -, -, -, -, htext⟩ :=
    text_of_span hs.hidden (faithful hs) hevolves.cursor hevolves.index hsize hlt rfl
  exact ⟨before, ts, after, hrest, hbefore, hafter, htext⟩

theorem retrieval_written (hs : s.Earnest hashComments text) {r : Retrieval}
    (h : retrieval s = .ok r t) :
    r.accessor.written = withoutOuterTrivia hashComments r.text := by
  obtain ⟨passed, hpassed, hwritten, hbehind⟩ := retrieval_writes hs h
  obtain ⟨before, ts, after, hrest, hbefore, hafter, htext⟩ := retrieval_text hs h
  have hall : passed = before ++ (ts ++ after) := by
    rw [hpassed] at hrest
    refine List.append_cancel_right (hrest.trans ?_)
    simp only [List.append_assoc]
  have htokens : tokens hashComments text =
      (s.cursor.front.toList.take s.cursor.index ++ before) ++
      (ts ++ (after ++ t.cursor.rest)) := by
    rw [← hs.front, List.append_assoc, ← hrest]
    exact (List.take_append_drop _ _).symm
  obtain ⟨p, ks, hts, hlexemes⟩ := lexemes_spell htokens
  have hkept : kept .outside passed = kept .outside ts := by
    obtain ⟨hnone, hstays⟩ := Region.trivia_dropped hbefore
    rw [hall, Region.behind_append, hstays, Region.behind_append] at hbehind
    have houtside :=
      Region.outside_of_behind (Region.open_behind (show Region.outside.Open from True.intro) ts)
        hafter hbehind
    rw [hall, Region.kept_append, hnone, hstays, Region.kept_append, houtside,
      (Region.trivia_dropped hafter).1, List.append_nil, List.nil_append]
  rw [← hwritten, hkept, htext, withoutOuterTrivia, tokens, hlexemes, hts]
  exact Region.spell_kept_located ..

end Parser

/-! ### Texts -/

def Package.retrievals (p : Package) : List Retrieval :=
  p.nodes.filterMap fun
    | .source (.retrieval r) => some r
    | _ => none

theorem Package.mem_retrievals {p : Package} {x : Retrieval} :
    x ∈ p.retrievals ↔ .source (.retrieval x) ∈ p.nodes := by
  rw [Package.retrievals, List.mem_filterMap]
  constructor
  · rintro ⟨n, hn, hx⟩
    split at hx
    · cases hx
      exact hn
    · cases hx
  · exact fun hx => ⟨_, hx, rfl⟩

/-- Every retrieval in the package of a text is written as its text is, trivia outside of captured
code aside. -/
theorem retrievals_written_of_parse {settings : Settings} {sourceName text : String}
    {r : ParseResult} (h : parse frames settings sourceName text = .ok r) {x : Retrieval}
    (hx : x ∈ r.package.retrievals) :
    x.accessor.written = withoutOuterTrivia settings.hashComments x.text := by
  obtain ⟨z, -, -, hnodes⟩ := nodes_read_of_parse h
  obtain ⟨s, t, hrun, hread⟩ := hnodes _ (Package.mem_retrievals.1 hx)
  exact retrieval_written hrun.earnest hread

/-- An index behind a member, one behind an index, calls, and trivia on both sides of
parentheses. -/
theorem retrievals_written_of_chain :
    ∃ r x, parse 900 {} "orders"
        "rule R when P() from f(1, /* one */ 2) . items[ 0 ][1]\n  .last( x ) // done\nthen end" =
          .ok r ∧
      x ∈ r.package.retrievals ∧ x.text = "f(1, /* one */ 2) . items[ 0 ][1]\n  .last( x )" ∧
      x.accessor.written = "f(1, /* one */ 2).items[ 0 ][1].last( x )" ∧
      x.accessor.written = withoutOuterTrivia true x.text := by
  have hvalues :
      (parse 900 {} "orders" ("rule R when P() from f(1, /* one */ 2) . items[ 0 ][1]\n" ++
      "  .last( x ) // done\nthen end")).toOption.map (·.package.retrievals.map fun x =>
        (x.text, x.accessor.written)) =
      some [("f(1, /* one */ 2) . items[ 0 ][1]\n  .last( x )",
        "f(1, /* one */ 2).items[ 0 ][1].last( x )")] := by
    decide +kernel
  cases h : parse 900 {} "orders" ("rule R when P() from f(1, /* one */ 2) . items[ 0 ][1]\n" ++
      "  .last( x ) // done\nthen end") with
  | error f =>
    rw [h] at hvalues
    cases hvalues
  | ok r =>
    rw [h] at hvalues
    obtain ⟨x, hx, hvalues⟩ := List.map_eq_singleton_iff.1 (Option.some.inj hvalues)
    obtain ⟨htext, hwritten⟩ := Prod.mk.inj hvalues
    have hmem : x ∈ r.package.retrievals := by
      rw [hx]
      exact List.mem_singleton_self x
    exact ⟨r, x, h, hmem, htext, hwritten, retrievals_written_of_parse h hmem⟩

end Rulebook
