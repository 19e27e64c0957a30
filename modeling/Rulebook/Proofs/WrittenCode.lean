import Rulebook.Proofs.Choosing
import Rulebook.Proofs.Dividers
import Rulebook.Proofs.Enclosed
import Rulebook.Proofs.Words

/-!
# Written code

Code in which the delimiters around it are balanced, and that such code is read back between them.
-/

namespace Rulebook

open Lexeme

/-- The pairs of delimiters of a list close at its end, if `depth` of them are open before it, and
no more than `limit` are open at once. -/
def Balances (opening closing : Symbol) (limit : Nat) : Nat → List TokenKind → Prop
  | depth, [] => depth = 0
  | depth, k :: ks =>
    if k = .symbol opening then depth < limit ∧ Balances opening closing limit (depth + 1) ks
    else if k = .symbol closing then 0 < depth ∧ Balances opening closing limit (depth - 1) ks
    else Balances opening closing limit depth ks

instance decidableBalances (opening closing : Symbol) (limit : Nat) :
    (depth : Nat) → (ks : List TokenKind) → Decidable (Balances opening closing limit depth ks)
  | depth, [] => inferInstanceAs (Decidable (depth = 0))
  | depth, k :: ks =>
    have := decidableBalances opening closing limit (depth + 1) ks
    have := decidableBalances opening closing limit (depth - 1) ks
    have := decidableBalances opening closing limit depth ks
    inferInstanceAs <| Decidable <|
      if k = .symbol opening then depth < limit ∧ Balances opening closing limit (depth + 1) ks
      else if k = .symbol closing then 0 < depth ∧ Balances opening closing limit (depth - 1) ks
      else Balances opening closing limit depth ks

def kinds (hashComments : Bool) (text : String) : List TokenKind :=
  (lexemes hashComments text.toList).map Prod.fst

structure IsCode (hashComments : Bool) (opening closing : Symbol) (text : String) : Prop where
  balanced : ∃ limit, Balances opening closing limit 0 (kinds hashComments text)
  ends : ¬EndsInside hashComments text

/-- No more pairs are open at once in a text than there is room for. -/
def Nests (hashComments : Bool) (opening closing : Symbol) (room : Nat) (text : String) : Prop :=
  Balances opening closing room 0 (kinds hashComments text)

instance (hashComments : Bool) (opening closing : Symbol) (room : Nat) (text : String) :
    Decidable (Nests hashComments opening closing room text) :=
  decidableBalances ..

/-- Code is scanned as it would be alone where a delimiter follows. -/
theorem IsCode.scans {hashComments : Bool} {opening closing : Symbol} {code : String}
    (h : IsCode hashComments opening closing code) {d : Char} (hd : d ∈ dividers)
    (hblank : isSeparator d = false) (rest : List Char) :
    Scans hashComments (lexemes hashComments code.toList) (d :: rest) := by
  unfold Scans
  rw [letters_lexemes]
  exact lexemes_before_divider h.ends hd hblank rest

theorem not_endsInside {hashComments : Bool} {text : String} {l : List Piece}
    (htext : letters l = text.toList) (h : Scans hashComments l [')']) :
    ¬EndsInside hashComments text := by
  rintro ⟨t, ht, hkind⟩
  have hparen : lexemes hashComments [')'] = [Piece.symbol .rparen] :=
    (@Scans.symbol hashComments [] .rparen (by decide)).trans (by rw [lexemes, List.append_nil])
  have hlexemes : lexemes hashComments (text ++ ")").toList = l ++ [Piece.symbol .rparen] := by
    rw [String.toList_append, ← htext, ← hparen]
    exact h
  obtain ⟨u, hu, hparen, -⟩ := getLast?_located (p := {}) (hlexemes ▸ List.getLast?_concat)
  rw [tokens, hu] at ht
  cases ht
  exact hkind hparen

theorem IsCode.of_scans {hashComments : Bool} {opening closing : Symbol} {text : String}
    (limit : Nat) (hbalances : Balances opening closing limit 0 (kinds hashComments text))
    (hscans : Scans hashComments (lexemes hashComments text.toList) [')']) :
    IsCode hashComments opening closing text :=
  ⟨⟨limit, hbalances⟩, not_endsInside (letters_lexemes _) hscans⟩

theorem spell_eq (ts : List Token) : spell ts = String.ofList (letters (ts.map Token.piece)) := by
  induction ts with
  | nil => rfl
  | cons t ts ih =>
    rw [spell_cons, ih, List.map_cons, Token.piece, letters_cons, String.ofList_append,
      String.ofList_toList]

/-! ### Nested braces -/

/-- As many pairs of braces, one in the other. -/
def nestedBraces (n : Nat) : String :=
  String.ofList (List.replicate n '\x7b' ++ List.replicate n '\x7d')

section NestedBraces

variable {hashComments : Bool}

theorem scans_replicate {k : Symbol} (hk : k ∈ plainSymbols) (n : Nat) (rest : List Char) :
    Scans hashComments (List.replicate n (Piece.symbol k)) rest := by
  induction n with
  | zero => exact .nil
  | succ n ih => exact .cons (.symbol hk) ih

theorem letters_replicate {k : Symbol} {c : Char} (hk : k.text.toList = [c]) (n : Nat) :
    letters (List.replicate n (Piece.symbol k)) = List.replicate n c := by
  induction n with
  | zero => rfl
  | succ n ih => rw [List.replicate_succ, Piece.letters_symbol, hk, ih]; rfl

theorem letters_nestedBraces (n : Nat) :
    letters (List.replicate n (Piece.symbol .lbrace) ++ List.replicate n (Piece.symbol .rbrace)) =
      (nestedBraces n).toList := by
  rw [nestedBraces, String.toList_ofList, letters_append,
    @letters_replicate .lbrace '\x7b' rfl, @letters_replicate .rbrace '\x7d' rfl]

theorem scans_nestedBraces (n : Nat) (rest : List Char) :
    Scans hashComments
      (List.replicate n (Piece.symbol .lbrace) ++ List.replicate n (Piece.symbol .rbrace)) rest :=
  .append (scans_replicate (by decide) n _) (scans_replicate (by decide) n rest)

theorem lexemes_nestedBraces (n : Nat) : lexemes hashComments (nestedBraces n).toList =
    List.replicate n (Piece.symbol .lbrace) ++ List.replicate n (Piece.symbol .rbrace) := by
  have h := @scans_nestedBraces hashComments n []
  rwa [Scans, List.append_nil, letters_nestedBraces, lexemes, List.append_nil] at h

theorem isCode_nestedBraces (n : Nat) :
    IsCode hashComments .lbrace .rbrace (nestedBraces n) := by
  have hclosing :
      ∀ m, Balances .lbrace .rbrace n m (List.replicate m (.symbol .rbrace)) := fun m => by
    induction m with
    | zero => rfl
    | succ m ih =>
      rw [List.replicate_succ, Balances, if_neg (by simp), if_pos rfl]
      exact ⟨Nat.succ_pos m, ih⟩
  have hopening : ∀ i j, i + j = n → Balances .lbrace .rbrace n i
      (List.replicate j (.symbol .lbrace) ++
        List.replicate n (.symbol .rbrace)) := fun i j hij => by
    induction j generalizing i with
    | zero => exact hij ▸ hclosing i
    | succ j ih =>
      rw [List.replicate_succ, List.cons_append, Balances, if_pos rfl]
      exact ⟨by omega, ih (i + 1) (by omega)⟩
  refine ⟨⟨n, ?_⟩, not_endsInside (letters_nestedBraces n) (scans_nestedBraces n _)⟩
  rw [kinds, lexemes_nestedBraces, List.map_append, List.map_replicate, List.map_replicate]
  exact hopening 0 n (Nat.zero_add n)

end NestedBraces

namespace Parser

variable {opening closing : Symbol} {more : List Piece} {I : State → Prop}

theorem enclosed_of_balances {room room' depth : Nat} {ts r : List Token} {t : Token}
    (h : Balances opening closing room depth (ts.map (·.kind))) (hroom : room ≤ room')
    (hts : ∀ u ∈ ts, u.kind ≠ .endOfInput) (ht : t.kind = .symbol closing)
    (hne : closing ≠ opening) :
    enclosed opening closing [] room' (depth + 1) (ts ++ t :: r) = ⟨ts, .closed, t :: r⟩ := by
  induction ts generalizing depth with
  | nil =>
    obtain rfl : depth = 0 := h
    rw [List.nil_append, enclosed, if_neg (by rw [ht]; simpa using hne), if_pos ht,
      if_pos (Nat.le_refl 1)]
  | cons u ts ih =>
    have hrest := fun depth h => @ih depth h fun v hv => hts v (List.mem_cons_of_mem _ hv)
    rw [List.map_cons, Balances] at h
    rw [List.cons_append, enclosed]
    split at h
    · next hopening =>
      rw [if_pos hopening, if_neg (by omega), hrest (depth + 1) h.2]
      rfl
    next hopening =>
    rw [if_neg hopening]
    split at h
    · next hclosing =>
      obtain ⟨depth, rfl⟩ : ∃ m, depth = m + 1 := ⟨depth - 1, by omega⟩
      rw [if_pos hclosing, if_neg (by omega)]
      have := hrest depth h.2
      rw [Nat.add_sub_cancel, this]
      rfl
    next hclosing =>
    rw [if_neg hclosing, if_neg (hts u List.mem_cons_self), if_neg (by simp), hrest depth h]
    rfl

theorem parses_chunk {hashComments : Bool} {room : Nat} {code : String}
    (h : Nests hashComments opening closing room code) (hne : closing ≠ opening) :
    Parses (State.Roomy I room) (chunk opening closing [])
      (Piece.symbol opening :: (lexemes hashComments code.toList ++ [Piece.symbol closing])) more
      (· = opening.text ++ (code ++ closing.text)) := by
  intro s hs hface
  have hopening : s.cursor.current.kind = .symbol opening := hface.kind
  have hfirst : s.cursor.current.text = opening.text :=
    Token.text_of_piece (hface.current (x := .symbol opening) rfl)
  have hrest := hface.rest_advanced rfl (by simp [Piece.symbol])
  rw [List.append_eq, List.append_assoc] at hrest
  obtain ⟨ts, us, heq, hts, hus⟩ := List.map_eq_append_iff.1 hrest
  obtain ⟨t, r, rfl, ht, hr⟩ := List.map_eq_cons_iff.1 hus
  have hkinds : ts.map (·.kind) = kinds hashComments code := by
    rw [kinds, ← hts, List.map_map]
    rfl
  have hclosed := @enclosed_of_balances opening closing room s.stack.room 0 ts r t
    (by rw [hkinds]; exact h) hs.2 (fun u hu => ?_) (congrArg Prod.fst ht) hne
  · have hchunk := @chunk_eq opening closing [] s hopening
    rw [heq, hclosed] at hchunk
    refine ⟨_, _, hchunk, ?_, ⟨?_, ?_⟩, ?_⟩
    · rw [hfirst, spell_eq, hts, letters_lexemes, String.ofList_toList]
      exact congrArg _ (congrArg _ (Token.text_of_piece ht))
    · exact (Cursor.triviaVisible_consume _).trans hface.hidden
    · have hmoved := Cursor.rest_moved (c := s.advanced.cursor) (x := ts ++ [t]) (r := r) (by
        rw [heq, List.append_assoc]
        rfl)
      rw [List.length_append] at hmoved
      exact congrArg solid ((congrArg (List.map Token.piece) hmoved).trans hr)
    · exact ⟨Orderly.evolves_ok _ hchunk, rfl, rfl, rfl, (State.Calm.advanced s).collector⟩
  · have hmem : (u.kind, u.text.toList) ∈ lexemes hashComments code.toList :=
      hts ▸ List.mem_map_of_mem hu
    obtain ⟨c, rest, hkind, -⟩ := lexeme_of_mem hmem
    rw [hkind]
    exact kind_lexeme_ne hashComments c rest

/-- Code that opens too many pairs nests too deep. -/
theorem enclosed_of_openings {room depth : Nat} {ts : List Token}
    (hts : ∀ t ∈ ts, t.kind = .symbol opening) (hdepth : depth ≤ room + 1)
    (h : room + 1 < depth + ts.length) (r : List Token) :
    (enclosed opening closing [] room depth (ts ++ r)).verdict = .deep := by
  induction ts generalizing depth with
  | nil => exact absurd h (Nat.not_lt.2 hdepth)
  | cons t ts ih =>
    rw [List.cons_append, enclosed, if_pos (hts t List.mem_cons_self)]
    split
    · rfl
    · rw [List.length_cons] at h
      exact ih (fun u hu => hts u (List.mem_cons_of_mem _ hu)) (by omega) (by omega)

def State.Short (k : Nat) (s : State) : Prop := s.stack.room < k

instance (k : Nat) : Lasting (State.Short k) :=
  ⟨fun {_ _} hs h => by rw [State.Short, h.evolves.stack]; exact hs⟩

theorem chunk_fails {k : Nat} {l : List Piece} :
    Fails (State.Short k) (chunk opening closing [])
      (Piece.symbol opening :: (List.replicate k (Piece.symbol opening) ++ l))
      (· = .nestingTooDeep) := by
  intro s hs hface
  have hopening : s.cursor.current.kind = .symbol opening := hface.kind
  have hrest := hface.rest_advanced rfl (by simp [Piece.symbol])
  obtain ⟨ts, r, heq, hts, -⟩ := List.map_eq_append_iff.1 hrest
  have hkinds : ∀ t ∈ ts, t.kind = .symbol opening := fun t ht => by
    have hmem : t.piece ∈ List.replicate k (Piece.symbol opening) := hts ▸ List.mem_map_of_mem ht
    exact congrArg Prod.fst (List.eq_of_mem_replicate hmem)
  have hlength : ts.length = k := by
    have := congrArg List.length hts
    rwa [List.length_map, List.length_replicate] at this
  have hshort : s.stack.room < k := hs
  have hdeep :=
    @enclosed_of_openings opening closing s.stack.room 1 ts hkinds (by omega) (by omega) r
  have hchunk := @chunk_eq opening closing [] s hopening
  rw [heq, Enclosure.result, hdeep] at hchunk
  exact ⟨_, _, hchunk, rfl, rfl⟩

theorem withoutDelimiters_chunk (o c : Char) (code : String) :
    withoutDelimiters (String.ofList [o] ++ (code ++ String.ofList [c])) = code := by
  simp [withoutDelimiters]

end Parser

end Rulebook
