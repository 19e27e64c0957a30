import Rulebook.Proofs.Accepting
import Rulebook.Proofs.LocalityGrammar
import Rulebook.Proofs.WrittenCode

/-!
# Where a list of restrictions ends

A list goes on behind a connective as long as a restriction is written there. Behind the last one a
connective is tried and left, unless the trial is given up for parentheses that nest too deep.
-/

namespace Rulebook.Parser

variable {α : Type} {room : Nat} {hashComments : Bool} {text alternative : String}
  {x token : Token} {a : α}
  {p : Parser α} {ts us more notes : List Token} {Q B : List Token → Prop} {c : Connective}
    {o : Operand}
  {kind : TokenKind} {s t : State}

/-! ### Trials -/

/-- Nothing is taken where a trial ends. -/
theorem takes_restored (hevolves : s.trying.Evolves t) (hname : t.ruleName = s.ruleName) :
    s.Takes (s.restored t) [] [] := by
  have heq := Orderly.restored_eq hevolves
  have hst := Orderly.evolves_of_named heq (.inl hname)
  rw [heq] at hst ⊢
  exact ⟨hst, rfl, id, rfl, hname, (ite_self _).symm⟩

theorem reads_trial [Orderly p] (hp : Reads room hashComments text p ts more a notes) :
    Reads room hashComments text (trial alternative p) [] (ts ++ more) true [] := by
  intro s hs hroom hahead
  obtain ⟨t, ht, hst⟩ := hp (s := s.trying) ⟨hs.shows, hs.hidden, hs.within⟩ hroom hahead
  exact ⟨_, trial_of_passed ht, takes_restored hst.evolves hst.ruleName⟩

theorem reads_failed_trial [Orderly p]
    (hp : ∀ {s : State}, s.Poised room → s.cursor.ahead = more → AcceptsFrom room Q B p s)
    (hQ : ∀ ts us, more = ts ++ us → ¬Q ts)
    (hB : ∀ ts us, more = ts ++ us → B ts → Delimiter.paren.WithinLimit room us) :
    Reads room hashComments text (trial alternative p) [] more false [] := by
  intro s hs hroom hahead
  have haccepts := hp (s := s.trying) ⟨hs.hidden, hroom⟩ hahead
  cases h : p s.trying with
  | ok a t =>
    -- what it would have taken is ahead, and was accepted
    obtain ⟨-, ts, hts, heq⟩ := haccepts.ok h
    exact absurd hts (hQ ts _ (hahead.symm.trans heq))
  | error f t =>
    have hname : t.ruleName = s.ruleName := after_of_error h ▸ haccepts.ruleName
    have hevolves := Orderly.evolves_error p h
    rcases haccepts.error h with ⟨e, rfl⟩ | ⟨-, ts, us, hts, heq, hlimit⟩
    · refine ⟨_, trial_of_recognition h,
        takes_restored (hevolves.trans (Orderly.evolves_noted _ t)) hname⟩
    · exact absurd (hB ts us (hahead.symm.trans heq) hts) hlimit

/-! ### Lists -/

theorem connective?_eq_some : connective? kind = some c ↔ kind ∈ c.spellings := by
  constructor
  · intro h
    unfold connective? at h
    split at h <;> cases h <;> simp [Connective.spellings]
  · intro h
    cases c <;> simp only [Connective.spellings, List.mem_cons, List.not_mem_nil, or_false] at h <;>
      rcases h with rfl | rfl | rfl <;> rfl

/-- What may follow a list of restrictions: no dot, and no connective with a further restriction
behind it, where code in parentheses would nest no deeper than there is room for. -/
structure ListEnds (room : Nat) (text : String) (more : List Token) : Prop where
  undotted : Undotted more
  unjoined : ∀ {x rest c}, more = x :: rest → x.kind ∈ Connective.spellings c →
    ∀ o ts notes, Operand.Written room text o ts notes → ¬ts <+: rest
  shallow : ∀ {x rest c}, more = x :: rest → x.kind ∈ Connective.spellings c →
    ∀ ts us, rest = ts ++ us → BeforeValue room text ts → Delimiter.paren.WithinLimit room us

theorem ne_endOfInput_of_connective (h : kind ∈ c.spellings) : kind ≠ .endOfInput := by
  rintro rfl
  cases c <;> simp [Connective.spellings] at h

theorem reads_connected (htoken : token.kind ∈ c.spellings) (ho : o.Written room text ts notes)
    (hmore : Undotted more) :
    Reads room hashComments text connectedRestriction (token :: ts) more o.flat notes :=
  .step (.advance (ne_endOfInput_of_connective htoken)) (reads_restriction ho hmore)

theorem reads_joined (htoken : token.kind ∈ c.spellings) (ho : o.Written room text ts notes)
    (hmore : Undotted more) (found : List Restriction) (open_ : Bool) :
    Reads room hashComments text (joinedRestriction (found, open_)) (token :: ts) more
      (found ++ connectiveAt c token :: o.flat, true) notes := by
  refine .current rfl ?_
  rw [connective?_eq_some.2 htoken]
  have htrial : Reads room hashComments text (trial "restriction connective" connectedRestriction)
    []
      (token :: ts ++ more) true [] := reads_trial (reads_connected htoken ho hmore)
  have hrest : Reads room hashComments text (do
      let token ← advance
      return (found ++ connectiveAt c token :: (← restriction), true)) (token :: ts) more
      (found ++ connectiveAt c token :: o.flat, true) notes :=
    .step (.advance (ne_endOfInput_of_connective htoken)) (reads_restriction ho hmore).andPure
  exact htrial.bind hrest

theorem reads_left {rest : List Token} (hmore : ListEnds room text (x :: rest))
    (hx : x.kind ∈ c.spellings) (found : List Restriction) (open_ : Bool) :
    Reads room hashComments text (joinedRestriction (found, open_)) [] (x :: rest)
      (found, false) [] := by
  refine .current rfl ?_
  rw [connective?_eq_some.2 hx]
  have haccepts : ∀ {s : State}, s.Poised room → s.cursor.ahead = x :: rest →
      AcceptsFrom room (fun ts => ∃ us o notes, ts = x :: us ∧ Operand.Written room text o us notes)
        (fun ts => ∃ us, ts = x :: us ∧ BeforeValue room text us) connectedRestriction s := by
    intro s hs hahead
    obtain rfl := current_of_ahead hs.hidden hahead
    refine .advance hs (ne_endOfInput_of_connective hx) fun hs' => ?_
    exact (accepts_restriction text hs').mono (fun ⟨o, notes, h⟩ => ⟨_, o, notes, rfl, h⟩)
      fun h => ⟨_, rfl, h⟩
  have htrial : Reads room hashComments text (trial "restriction connective" connectedRestriction)
    [] (x :: rest)
      false [] := by
    refine reads_failed_trial haccepts ?_ ?_
    · rintro _ us heq ⟨ts, o, notes, rfl, hwritten⟩
      exact hmore.unjoined rfl hx o ts notes hwritten ⟨us, (List.cons.inj heq).2.symm⟩
    · rintro _ us heq ⟨ts, rfl, hbefore⟩
      exact hmore.shallow rfl hx ts us (List.cons.inj heq).2 hbefore
  intro s hs hroom hahead
  obtain ⟨t, ht, hst⟩ := htrial hs hroom hahead
  exact ⟨t, (bind_of_ok ht).trans rfl, hst⟩

theorem undotted_of_connective (hx : x.kind ∈ c.spellings) (more : List Token) :
    Undotted (x :: more) := by
  refine undotted_cons (fun hdot => ?_) more
  rw [hdot] at hx
  cases c <;> simp [Connective.spellings] at hx

theorem undotted_links {others : List (Connective × Token × Operand)}
    (hlinks : WrittenLinks room text others ts notes) (hmore : Undotted more) :
    Undotted (ts ++ more) := by
  cases hlinks with
  | nil => exact hmore
  | cons htoken => exact undotted_of_connective htoken _

theorem connected_of_connective {rest : List Token} (hx : x.kind ∈ c.spellings)
    (found : List Restriction) (hs : s.Reading hashComments text)
    (hahead : s.cursor.ahead = x :: rest) : Recurs.connected (found, true) s = .ok true s := by
  rw [Recurs.connected_eq, current_of_ahead hs.hidden hahead, connective?_eq_some.2 hx]
  rfl

variable (hashComments) in
theorem reads_end (hmore : ListEnds room text more) (found : List Restriction) :
    ∃ open_, Reads room hashComments text
      (repeatWhile (found, true) Recurs.connected joinedRestriction) [] more (found, open_) [] := by
  have hrolls : Rolls Recurs.connected joinedRestriction := rolls_joinedRestriction
  by_cases hjoined : ∃ x rest c, more = x :: rest ∧ x.kind ∈ Connective.spellings c
  · -- one more round, in which the connective is tried and left
    obtain ⟨x, rest, c, rfl, hx⟩ := hjoined
    have hleft : Reads room hashComments text (joinedRestriction (found, true)) [] (x :: rest)
      (found, false)
        [] := reads_left hmore hx found true
    have hround := Reads.round hrolls (fun s hs => connected_of_connective hx found hs) hleft
      (.done hrolls fun s _ _ => rfl)
    exact ⟨false, hround⟩
  · refine ⟨true, .done hrolls fun s hs hahead => ?_⟩
    have hnone : connective? s.cursor.current.kind = none := by
      rw [Cursor.current_of_hidden hs.hidden, hahead]
      cases more with
      | nil => rw [List.headD_nil, Cursor.kind_last]; rfl
      | cons x rest =>
        by_contra hsome
        obtain ⟨c, hc⟩ := Option.ne_none_iff_exists'.1 hsome
        exact hjoined ⟨x, rest, c, rfl, connective?_eq_some.1 hc⟩
    rw [Recurs.connected_eq, hnone]
    rfl

variable (hashComments) in
theorem reads_links {others : List (Connective × Token × Operand)}
    (hlinks : WrittenLinks room text others ts notes) (hmore : ListEnds room text more)
    (found : List Restriction) :
    ∃ open_, Reads room hashComments text
      (repeatWhile (found, true) Recurs.connected joinedRestriction) ts more
      (found ++ flatLinks others, open_) notes := by
  induction hlinks generalizing found with
  | nil =>
    obtain ⟨open_, hend⟩ := reads_end hashComments hmore found
    exact ⟨open_, by rwa [flatLinks, List.flatMap_nil, List.append_nil]⟩
  | @cons c token o others ts us notes notes' htoken ho hothers ih =>
    obtain ⟨open_, hrest⟩ := ih (found ++ connectiveAt c token :: o.flat)
    have hround := Reads.round rolls_joinedRestriction
      (fun s hs => connected_of_connective htoken found hs)
      (reads_joined htoken ho (undotted_links hothers hmore.undotted) found true) hrest
    rw [List.append_assoc] at hround
    exact ⟨open_, hround⟩

theorem reads_restrictions {chain : Chain} (hchain : chain.Written room text ts notes)
    (hmore : ListEnds room text more) :
    Reads room hashComments text restrictions ts more chain.flat notes := by
  obtain @⟨first, others, ts, us, notes, notes', hfirst, hothers⟩ := hchain
  obtain ⟨open_, hloop⟩ := reads_links hashComments hothers hmore first.flat
  have hrest : Reads room hashComments text
    (repeatWhile (first.flat, true) Recurs.connected joinedRestriction
      >>= fun x => return x.1) us more (first.flat ++ flatLinks others) notes' := hloop.andPure
  intro s hs hroom hahead
  rw [List.append_assoc] at hahead
  obtain ⟨t, ht, hst⟩ :=
    reads_restriction hfirst (undotted_links hothers hmore.undotted) hs hroom hahead
  obtain ⟨u, hu, htu⟩ := hrest (hst.reading hs) (hst.room_eq hroom) (hst.ahead_eq hahead)
  exact ⟨u, (bind_of_ok ht).trans hu, hst.trans htu⟩

/-- Restrictions joined by connectives are read as they are written, from the first token to the
last one, and nothing is told of but code that ends in a semicolon. A connective behind them that no
restriction follows is next. -/
theorem restrictions_read {chain : Chain} (hs : s.Reading hashComments text)
    (hchain : chain.Written s.stack.room text ts notes) (hahead : s.cursor.ahead = ts ++ more)
    (hmore : ListEnds s.stack.room text more) :
    ∃ t, restrictions s = .ok chain.flat t ∧ s.Takes t ts notes ∧ t.cursor.ahead = more ∧
      ∀ x ∈ more.head?, t.cursor.current = x := by
  obtain ⟨t, ht, hst⟩ := reads_restrictions hchain hmore hs rfl hahead
  have hrest := hst.ahead_eq hahead
  refine ⟨t, ht, hst, hrest, fun x hx => ?_⟩
  obtain ⟨rest, rfl⟩ := List.head?_eq_some_iff.1 hx
  exact current_of_ahead (hst.reading hs).hidden hrest

theorem head_of_written (h : Operand.Written room text o ts notes) :
    ∃ x us, ts = x :: us ∧ x.kind ∈ operatorKinds := by
  cases h with
  | compared hoperator => exact ⟨_, _, rfl, List.mem_append_left _ hoperator⟩
  | negated hword | oneOf hword | noneOf hword => exact ⟨_, _, rfl, by rw [hword]; decide⟩

theorem head_of_beforeValue (h : BeforeValue room text ts) :
    ∃ x us, ts = x :: us ∧ x.kind ∈ operatorKinds := by
  cases h with
  | compared hoperator => exact ⟨_, _, rfl, List.mem_append_left _ hoperator⟩
  | negated hword | oneOf hword | noneOf hword => exact ⟨_, _, rfl, by rw [hword]; decide⟩

theorem listEnds_of_operator (hundotted : Undotted more)
    (h : ∀ x y rest, more = x :: y :: rest → y.kind ∉ operatorKinds) : ListEnds room text more where
  undotted := hundotted
  unjoined := by
    rintro x rest c rfl - o ts notes hwritten ⟨us, rfl⟩
    obtain ⟨y, ts, rfl, hy⟩ := head_of_written hwritten
    exact h x y _ rfl hy
  shallow := by
    rintro x rest c rfl - ts us rfl hbefore
    obtain ⟨y, ts, rfl, hy⟩ := head_of_beforeValue hbefore
    exact absurd hy (h x y _ rfl)

/-- Restrictions, and a connective that none of them follows. -/
def openList : String := "== 1 || not in (\"a\", b.c) && )"

theorem restrictions_read_openList : ∃ (chain : Chain) (t : State),
    restrictions (State.ofText 900 {} "" openList) = .ok chain.flat t ∧ chain.flat.length = 5 ∧
      t.cursor.current.kind = .symbol .doubleAmper := by
  have hkinds : (State.ofText 900 {} "" openList).cursor.ahead.map (·.kind) =
      [.symbol .equal, .literal .int, .symbol .doublePipe, .keyword .not, .keyword .in_,
        .symbol .lparen,
        .literal .string, .symbol .comma, .identifier, .symbol .dot, .identifier, .symbol .rparen,
        .symbol .doubleAmper, .symbol .rparen] := by
    decide +kernel
  have hlength := congrArg List.length hkinds
  rw [List.length_map] at hlength
  generalize hahead : (State.ofText 900 {} "" openList).cursor.ahead = ahead at hkinds hlength
  match ahead, hlength with
  | [t₀, t₁, t₂, t₃, t₄, t₅, t₆, t₇, t₈, t₉, t₁₀, t₁₁, t₁₂, t₁₃], _ =>
    simp only [List.map_cons, List.map_nil, List.cons.injEq, and_true] at hkinds
    obtain ⟨h₀, h₁, h₂, h₃, h₄, h₅, h₆, h₇, h₈, h₉, h₁₀, h₁₁, h₁₂, h₁₃⟩ := hkinds
    obtain ⟨chain, notes, hchain, hflat⟩ : ∃ chain notes, Chain.Written 900 openList chain
        ([t₀, t₁] ++ (t₂ :: ([t₃, t₄, t₅, t₆, t₇, t₈, t₉, t₁₀, t₁₁] ++ []))) notes ∧
        chain.flat.length = 5 := by
      have hname : ∀ t : Token, t.kind = .identifier → t.isName = true := fun t ht => by
        rw [Token.isName, ht]
        rfl
      have hconstant : WrittenValue 900 openList "!=" t₈ [t₈, t₉, t₁₀] _ [] :=
        @WrittenValue.constant 900 openList "!=" t₈ t₈ [(t₉, t₁₀)] (hname t₈ h₈) (by simp)
          (by simp [h₉, hname t₁₀ h₁₀])
      exact ⟨_, _,
        .mk (.compared (by rw [h₀]; decide) (.literal h₁)) (.cons (c := .or) (by rw [h₂]; decide)
        (.noneOf h₃ h₄ (.mk h₅ rfl (.literal h₆) (.cons h₇ rfl hconstant .nil) h₁₁)) .nil), rfl⟩
    have hmore : ListEnds 900 openList [t₁₂, t₁₃] :=
      listEnds_of_operator (undotted_cons (by rw [h₁₂]; simp) _) fun x y rest heq => by
        cases heq
        rw [h₁₃]
        decide
    obtain ⟨t, ht, -, -, hcurrent⟩ :=
      restrictions_read (reading_ofText 900 {} "" openList) hchain hahead hmore
    exact ⟨chain, t, ht, hflat, by rw [hcurrent t₁₂ rfl, h₁₂]⟩

/-! ### Code that is given up -/

theorem value_gives_up (hs : s.cursor.triviaVisible = false) (hahead : s.cursor.ahead = x :: ts)
    (hx : x.kind = .symbol .lparen)
    (hdeep : (enclosed .lparen .rparen [] s.stack.room 1 ts).verdict = .deep) (operator : String)
    (token : Token) : ∃ t, restrictionValue operator token s = .error .nestingTooDeep t := by
  obtain rfl := current_of_ahead hs hahead
  have hvisible := @enclosed_visible .lparen .rparen [] s.stack.room 1 s.advanced.cursor.rest
  have hrest : visible s.advanced.cursor.rest = ts :=
    (List.cons.inj ((Cursor.ahead_consume hs (by rw [hx]; simp)).symm.trans hahead)).2
  rw [hrest] at hvisible
  have hverdict :
      (enclosed .lparen .rparen [] s.stack.room 1 s.advanced.cursor.rest).verdict = .deep :=
    (congrArg (·.verdict) hvisible).symm.trans hdeep
  have hchunk : parenChunk s = _ := chunk_eq hx
  rw [Enclosure.result, hverdict] at hchunk
  obtain ⟨t, hcode⟩ : ∃ t, parenCode s = .error .nestingTooDeep t := by
    unfold parenCode
    rw [map_eq_bind]
    exact ⟨_, bind_of_error hchunk⟩
  unfold restrictionValue
  rw [bind_of_ok (current_eq s)]
  simp only [hx]
  exact ⟨_, bind_of_error hcode⟩

/-- Where a value is code that nests too deep, a connective before it is not left. -/
theorem joined_gives_up {operator : Token} (hs : s.cursor.triviaVisible = false)
    (hahead : s.cursor.ahead = x :: operator :: token :: ts) (hx : x.kind ∈ c.spellings)
    (hoperator : operator.kind ∈ comparisonKinds ++ negatableKinds)
    (htoken : token.kind = .symbol .lparen)
    (hdeep : (enclosed .lparen .rparen [] s.stack.room 1 ts).verdict = .deep)
    (found : List Restriction) :
    ∃ t, joinedRestriction (found, true) s = .error .nestingTooDeep t := by
  obtain rfl := current_of_ahead hs hahead
  have hend : TokenKind.endOfInput ∉ comparisonKinds ++ negatableKinds := by decide
  have hfirst : s.trying.advanced.cursor.ahead = operator :: token :: ts :=
    (takes_advanced (s := s.trying) hs (ne_endOfInput_of_connective hx)).ahead_eq hahead
  have hs' : s.trying.advanced.cursor.triviaVisible = false :=
    (Orderly.evolves_advanced s.trying).triviaVisible.trans hs
  obtain rfl := current_of_ahead hs' hfirst
  have hsecond : s.trying.advanced.advanced.cursor.ahead = token :: ts :=
    (takes_advanced hs' fun hno => hend (hno ▸ hoperator)).ahead_eq hfirst
  obtain ⟨t, ht⟩ :=
    value_gives_up ((Orderly.evolves_advanced s.trying.advanced).triviaVisible.trans hs')
    hsecond htoken hdeep s.trying.advanced.cursor.current.text s.trying.advanced.cursor.current
  have hconnected : connectedRestriction s.trying = .error .nestingTooDeep t := by
    unfold connectedRestriction restriction
    rw [bind_of_ok (advance_eq s.trying), bind_of_ok (current_eq s.trying.advanced),
      if_pos hoperator, bind_of_ok (advance_eq s.trying.advanced), bind_of_error ht]
  dsimp only [joinedRestriction]
  rw [bind_of_ok (current_eq s)]
  simp only [connective?_eq_some.2 hx]
  exact ⟨_, bind_of_error (trial_of_failure hconnected (by simp))⟩

theorem links_give_up {others : List (Connective × Token × Operand)} {operator : Token}
    (hs : s.Reading hashComments text) (hroom : s.stack.room = room)
    (hlinks : WrittenLinks room text others ts notes)
    (hahead : s.cursor.ahead = ts ++ x :: operator :: token :: us) (hx : x.kind ∈ c.spellings)
    (hoperator : operator.kind ∈ comparisonKinds ++ negatableKinds)
    (htoken : token.kind = .symbol .lparen)
    (hdeep : (enclosed .lparen .rparen [] room 1 us).verdict = .deep) (found : List Restriction) :
    ∃ t, repeatWhile (found, true) Recurs.connected joinedRestriction s =
      .error .nestingTooDeep t := by
  have hrolls : Rolls Recurs.connected joinedRestriction := rolls_joinedRestriction
  induction hlinks generalizing s found with
  | nil =>
    obtain ⟨t, ht⟩ := joined_gives_up hs.hidden hahead hx hoperator htoken (hroom ▸ hdeep) found
    rw [hrolls.repeatWhile_eq (Nat.le_refl _),
      Turns.rounds_succ (connected_of_connective hx found hs hahead), if_pos rfl]
    exact ⟨t, bind_of_error ht⟩
  | @cons c' token' o others ts ts' notes notes' htoken' ho hothers ih =>
    rw [List.cons_append, List.append_assoc] at hahead
    have hmore := undotted_links hothers (undotted_of_connective hx (operator :: token :: us))
    obtain ⟨t, ht, hst⟩ := reads_joined htoken' ho hmore found true hs hroom hahead
    obtain ⟨u, hu⟩ := ih (hst.reading hs) (hst.room_eq hroom) (hst.ahead_eq hahead)
      (found ++ connectiveAt c' token' :: o.flat)
    have hround := repeatWhile_round hrolls (connected_of_connective htoken' found hs hahead) ht
    exact ⟨u, hround.trans hu⟩

theorem restrictions_give_up {chain : Chain} {operator : Token} (hs : s.Reading hashComments text)
    (hchain : chain.Written s.stack.room text ts notes)
    (hahead : s.cursor.ahead = ts ++ x :: operator :: token :: us) (hx : x.kind ∈ c.spellings)
    (hoperator : operator.kind ∈ comparisonKinds ++ negatableKinds)
    (htoken : token.kind = .symbol .lparen)
    (hdeep : (enclosed .lparen .rparen [] s.stack.room 1 us).verdict = .deep) :
    ∃ t, restrictions s = .error .nestingTooDeep t := by
  obtain @⟨first, others, ts, ts', notes, notes', hfirst, hothers⟩ := hchain
  rw [List.append_assoc] at hahead
  have hmore := undotted_links hothers (undotted_of_connective hx (operator :: token :: us))
  obtain ⟨t, ht, hst⟩ := reads_restriction hfirst hmore hs rfl hahead
  obtain ⟨u, hu⟩ := links_give_up (hst.reading hs) (hst.room_eq rfl) hothers (hst.ahead_eq hahead)
    hx hoperator htoken hdeep first.flat
  exact ⟨u, (bind_of_ok ht).trans (bind_of_error hu)⟩

/-! ### Parentheses that are never closed -/

/-- A restriction, and a connective before code that opens `n` parentheses. -/
def unclosedCode (n : Nat) : String :=
  String.ofList ("contains duration or contains".toList ++ List.replicate n '(')

/-- What is before the parentheses. -/
def unclosedWords : List Piece :=
  [.keyword .contains, .blank, .keyword .duration, .blank, .keyword .or, .blank, .keyword .contains]

def unclosedPieces (n : Nat) : List Piece := unclosedWords ++ List.replicate n (.symbol .lparen)

theorem lexemes_unclosedCode (n : Nat) :
    lexemes hashComments (unclosedCode n).toList = unclosedPieces n := by
  have hwords : letters unclosedWords = "contains duration or contains".toList := by decide +kernel
  have hletters : letters (unclosedPieces n) = (unclosedCode n).toList := by
    have hparens := @letters_replicate .lparen '(' rfl n
    unfold unclosedPieces unclosedCode
    rw [String.toList_ofList, letters_append, hwords, hparens]
  have hspace : ' ' ∈ nameStops := by decide
  have hblank : ∀ l : List Piece, Stops (letters (Piece.blank :: l) ++ []) :=
    fun _ => .cons hspace _
  have hstops : Stops (letters (List.replicate n (Piece.symbol .lparen)) ++ []) := by
    rw [@letters_replicate .lparen '(' rfl, List.append_nil]
    cases n with
    | zero => exact .nil
    | succ n => exact .cons (by decide) _
  have hscans : Scans hashComments (unclosedPieces n) [] :=
    .cons (.keyword _ (hblank _)) <| .cons (.blank fun _ h => by cases h; rfl) <|
    .cons (.keyword _ (hblank _)) <| .cons (.blank fun _ h => by cases h; rfl) <|
    .cons (.keyword _ (hblank _)) <| .cons (.blank fun _ h => by cases h; rfl) <|
    .cons (.keyword _ hstops) (scans_replicate (by decide) n [])
  rwa [Scans, List.append_nil, hletters, lexemes, List.append_nil] at hscans

/-- Its tokens, blanks aside. -/
theorem ahead_unclosedCode (n : Nat) : ∃ operator value connective operator' ts,
    (State.ofText 900 {} "" (unclosedCode n)).cursor.ahead = operator :: value :: connective ::
    operator' :: ts ∧
      operator.kind = .keyword .contains ∧ value.kind = .keyword .duration ∧
      connective.kind = .keyword .or ∧ operator'.kind = .keyword .contains ∧
      ts.length = n ∧ ∀ t ∈ ts, t.kind = .symbol .lparen := by
  have hface := (faces_ofText 900 {} "" (unclosedCode n)).ahead
  have hparens : (List.replicate n (Piece.symbol .lparen)).filter (fun x => !x.isTrivia) =
      List.replicate n (Piece.symbol .lparen) := List.filter_replicate_of_pos rfl
  rw [lexemes_unclosedCode, unclosedPieces, List.filter_append, hparens] at hface
  obtain ⟨operator, ts₁, h₁, hoperator, hface⟩ := List.map_eq_cons_iff.1 hface
  obtain ⟨value, ts₂, h₂, hvalue, hface⟩ := List.map_eq_cons_iff.1 hface
  obtain ⟨connective, ts₃, h₃, hconnective, hface⟩ := List.map_eq_cons_iff.1 hface
  obtain ⟨operator', ts, h₄, hoperator', hface⟩ := List.map_eq_cons_iff.1 hface
  refine ⟨operator, value, connective, operator', ts, ?_, congrArg Prod.fst hoperator,
    congrArg Prod.fst hvalue, congrArg Prod.fst hconnective, congrArg Prod.fst hoperator', ?_, ?_⟩
  · rw [h₁, h₂, h₃, h₄]
  · rw [← List.length_map (f := Token.piece), hface]
    exact List.length_replicate
  · intro t ht
    have hmem : t.piece ∈ List.replicate n (Piece.symbol .lparen) := by
      rw [← show ts.map Token.piece = List.replicate n (Piece.symbol .lparen) from hface]
      exact List.mem_map_of_mem ht
    exact congrArg Prod.fst (List.eq_of_mem_replicate hmem)

/-- Parentheses that are not closed are no value. -/
theorem not_written_of_openings {operator : Token} (hoperator : operator.kind = .keyword .contains)
    (hts : ∀ t ∈ ts, t.kind = .symbol .lparen) (hus : us <+: operator :: ts) :
    ¬Operand.Written room text o us notes := by
  intro h
  have hname : ∀ t ∈ ts, t.isName = false := fun t ht => by
    rw [Token.isName, hts t ht]
    rfl
  cases h with
  | @compared _ vs _ r _ hvalue =>
    have hvs : vs <+: ts := (List.cons_prefix_cons.1 hus).2
    cases hvalue with
    | @literal value l hvalue =>
      rw [hts value (hvs.subset List.mem_cons_self)] at hvalue
      cases hvalue
    | @code opening closing inner code _ henclosed =>
      have hkind := closing_of_enclosed henclosed
      rw [hts closing (hvs.subset (by simp))] at hkind
      cases hkind
    | @constant first parts hfirst =>
      rw [hname first (hvs.subset List.mem_cons_self)] at hfirst
      cases hfirst
    | @reference value hvalue =>
      rw [hname value (hvs.subset List.mem_cons_self)] at hvalue
      cases hvalue
  | negated hword | oneOf hword | noneOf hword =>
    rw [(List.cons_prefix_cons.1 hus).1, hoperator] at hword
    cases hword

/-- No restriction is behind the connective, and yet it is not left. -/
theorem unclosedCode_unread : ∃ (chain : Chain) (ts notes more : List Token),
    chain.Written 900 (unclosedCode 2000) ts notes ∧
    (State.ofText 900 {} "" (unclosedCode 2000)).cursor.ahead = ts ++ more ∧ Undotted more ∧
    (∀ x rest c, more = x :: rest → x.kind ∈ Connective.spellings c →
      ∀ o ts notes, Operand.Written 900 (unclosedCode 2000) o ts notes → ¬ts <+: rest) ∧
    ¬∃ t, restrictions (State.ofText 900 {} "" (unclosedCode 2000)) = .ok chain.flat t := by
  obtain ⟨operator, value, connective, operator', ts, hahead, hoperator, hvalue, hconnective,
    hoperator', hlength, hparens⟩ := ahead_unclosedCode 2000
  have hchain : Chain.Written 900 (unclosedCode 2000)
      ⟨.single (.reference (.reaching operator [value]) operator.text value.text), []⟩
      [operator, value] [] :=
    .mk (.compared (by rw [hoperator]; decide) (.reference (by rw [Token.isName, hvalue]; rfl)))
      .nil
  have hspelling : connective.kind ∈ Connective.spellings .or := by
    rw [hconnective]
    decide
  refine ⟨_, _, _, connective :: operator' :: ts, hchain, hahead,
    undotted_of_connective hspelling _, ?_, ?_⟩
  · rintro _ _ _ heq - o us notes hwritten hus
    cases heq
    exact not_written_of_openings hoperator' hparens hus hwritten
  · -- but code that nests too deep is behind its operator, so the trial does not answer
    rintro ⟨t, ht⟩
    cases ts with
    | nil => cases hlength
    | cons opening ts =>
      have hdeep := @enclosed_of_openings .lparen .rparen 900 1 ts
        (fun t ht => hparens t (List.mem_cons_of_mem _ ht)) (by decide)
        (by rw [List.length_cons] at hlength; omega) []
      rw [List.append_nil] at hdeep
      obtain ⟨u, hu⟩ :=
        restrictions_give_up (reading_ofText 900 {} "" (unclosedCode 2000)) hchain hahead hspelling
        (by rw [hoperator']; decide) (hparens opening List.mem_cons_self) hdeep
      rw [hu] at ht
      cases ht

end Rulebook.Parser
