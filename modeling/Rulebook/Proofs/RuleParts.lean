import Rulebook.Proofs.Continuations
import Rulebook.Proofs.SharedConditions

/-!
# Rules of given conditions

A rule whose conditions are read up to its `then` is read as a whole, with these conditions and what
is written behind them.
-/

namespace Rulebook.Parser

open Lexeme

variable {s t u : State} {l : List Piece} {hashComments : Bool} {text : String} {r : Name}
  {stack : Stack}

theorem parses_consequence (hface : s.Faces thenEnd) :
    ∃ found t, consequence s = .ok found t ∧ t.Faces [.keyword .end_] ∧ s.Calm t := by
  have hkind : s.cursor.current.kind = .keyword .then_ := hface.kind
  have hrest : s.advanced.cursor.rest.map Token.piece = [.blank, .keyword .end_] :=
    hface.rest_advanced rfl (by simp [Piece.keyword])
  obtain ⟨b, bs, hb, hblank, hbs⟩ := List.map_eq_cons_iff.1 hrest
  obtain ⟨e, es, he, hend, hes⟩ := List.map_eq_cons_iff.1 hbs
  obtain rfl := List.map_eq_nil_iff.1 hes
  have hbkind : b.kind = .trivia .whitespace := congrArg Prod.fst hblank
  have hekind : e.kind = .keyword .end_ := congrArg Prod.fst hend
  have hbefore : beforeEnd s.advanced.cursor.rest = [b] := by
    rw [hb, he, beforeEnd_cons (by rw [hbkind]; decide), beforeEnd_of_end (by rw [hekind]; decide)]
  have hconsequence := consequence_eq hkind
  rw [hbefore] at hconsequence
  have hmoved : (s.advanced.moved 1).cursor.rest = [e] :=
    Cursor.rest_moved (x := [b]) (hb.trans (congrArg (b :: ·) he))
  refine ⟨_, _, hconsequence, ⟨?_, ?_⟩, ?_⟩
  · exact (Cursor.triviaVisible_consume _).trans hface.hidden
  · show solid ((s.advanced.moved 1).cursor.rest.map Token.piece) = _
    rw [hmoved, List.map_cons, hend]
    rfl
  · have hadvanced := State.Calm.advanced s
    exact ⟨Orderly.evolves_ok consequence hconsequence, hadvanced.package, hadvanced.ruleName,
      hadvanced.lastRecovery, hadvanced.collector⟩

theorem ruleBody_of_elements {P : List Condition → Prop} (rule : Rule)
    (hs : s.Untroubled stack hashComments text) (hface : s.Faces (.keyword .when_ :: l))
    (helements : ∀ t, t.Untroubled stack hashComments text → t.Faces (afterColon l) → ∃ es u,
      blockElements t = .ok es u ∧ P es ∧ u.collector.received = 0 ∧ u.Faces thenEnd) :
    ∃ anchor es found u, ruleBody rule s = .ok { found := { rule with
        conditions := some ⟨blockLocation (some anchor) es, es⟩, consequence := found } } u ∧
      P es ∧ u.Untroubled stack hashComments text ∧ u.Faces [] := by
  obtain ⟨_, a, hattributes, rfl, hface, hsa⟩ :=
    parses_ruleAttributes (I := State.Untroubled stack hashComments text) rule rfl hs hface
  have ha : a.Untroubled stack hashComments text := Lasting.calm hs hsa
  have hwhen : nextIsKeyword .when_ a = .ok true a := by
    show EStateM.Result.ok (decide (a.cursor.current.kind = _)) a = _
    rw [hface.kind]
    rfl
  obtain ⟨anchor, b, hanchor, -, hface, hab⟩ :=
    Parses.advance (I := State.Untroubled stack hashComments text) (x := .keyword .when_) rfl
      (by simp [Piece.keyword]) ha hface
  obtain ⟨c, hcolon, hface, hbc⟩ := parses_colon hface
  have hc : c.Untroubled stack hashComments text := Lasting.calm ha (hab.trans hbc)
  obtain ⟨es, d, hes, hP, hclean, hface⟩ := helements c hc hface
  have hd := hc.of_ok hes hclean
  obtain ⟨found, e, hfound, hface, hde⟩ := parses_consequence hface
  have hclosing : Parses (State.Untroubled stack hashComments text) closing [.keyword .end_]
      [] fun _ => True :=
    (Parses.keyword .end_).before fun _ _ => Parses.skip_of_ne .semicolon (by simp)
  obtain ⟨_, u, hu, -, hface, heu⟩ := hclosing (Lasting.calm hd hde) hface
  refine ⟨anchor, es, found, u, ?_, hP, Lasting.calm hd (hde.trans heu), hface⟩
  have hblock : conditionBlock a = .ok ⟨blockLocation (some anchor) es, es⟩ d := by
    unfold conditionBlock
    rw [bind_of_ok hanchor, bind_of_ok hcolon]
    exact bind_of_ok hes
  unfold ruleBody
  rw [bind_of_ok hattributes]
  refine (bind_of_ok (a := { found := { rule with
    conditions := some ⟨blockLocation (some anchor) es, es⟩ } }) (t := d) ?_).trans ?_
  · show ruleConditions rule a = _
    unfold ruleConditions
    rw [bind_of_ok hwhen, if_pos rfl]
    exact harvest_of_ok hblock
  · show ruleConsequence _ d = _
    unfold ruleConsequence
    rw [bind_of_ok (harvest_of_ok hfound)]
    exact harvest_of_ok hu

/-- A rule without attributes whose conditions end where `then` and the last word of the text are
written. -/
theorem ruleStatement_of_elements {P : List Condition → Prop}
    (hs : s.Untroubled stack hashComments text)
    (hface : s.Faces (.keyword .rule :: .blank :: r.piece :: .blank :: .keyword .when_ :: l))
    (helements : ∀ t, t.Untroubled stack hashComments text → t.Faces (afterColon l) → ∃ es u,
      blockElements t = .ok es u ∧ P es ∧ u.collector.received = 0 ∧ u.Faces thenEnd) :
    ∃ rule t anchor es, ruleStatement s = .ok rule t ∧
      t.package.rules = s.package.rules ++ [.rule rule] ∧ t.collector.received = 0 ∧ t.Faces [] ∧
      rule.name = r.text ∧ rule.conditions = some ⟨blockLocation (some anchor) es, es⟩ ∧ P es := by
  obtain ⟨token, a, hkeyword, -, hface, hsa⟩ :=
    Parses.keyword (I := State.Untroubled stack hashComments text) .rule hs hface
  have ha : a.Untroubled stack hashComments text := Lasting.calm hs hsa
  obtain ⟨_, b, htitle, rfl, hface, hab⟩ := (parses_title r).blank ha hface
  have hb : b.Untroubled stack hashComments text := Lasting.calm ha hab
  let begun : Rule :=
    { location := .ofToken token, name := r.text, attributes := b.package.attributes }
  have hbegun : State.Untroubled stack hashComments text { b with ruleName := some r.text } :=
    ⟨hb.cursor, hb.trials, hb.package, hb.lastRecovery, hb.recovering, hb.received, hb.stack⟩
  have hface : State.Faces { b with ruleName := some r.text } (.keyword .when_ :: l) :=
    State.Faces.of_trivia ⟨hface.hidden, hface.rest⟩ Piece.isTrivia_blank
  obtain ⟨anchor, es, found, u, hbody, hP, hu, huface⟩ :=
    ruleBody_of_elements begun hbegun hface helements
  have hupackage : u.package.rules = s.package.rules := by
    have hinert := Inert.package_ok _ hbody
    exact congrArg Package.rules (hinert.trans ((hsa.trans hab).package))
  let rule : Rule := { begun with
    location := (Location.ofToken token).closeAt (u.cursor.previous.map (·.stop))
    conditions := some ⟨blockLocation (some anchor) es, es⟩
    consequence := found }
  let last : State := { u with ruleName := none }
  have hrule : recovering r.text (ruleBody begun) (fun rule location => { rule with location })
      (.ofToken token) b = .ok rule last :=
    recovering_of_ok _ hbody
  let add (p : Package) : Package := { p with rules := p.rules ++ [.rule rule] }
  have hlast : last.trials = 0 := hu.trials
  refine ⟨rule, (last.declared add).noted (.ruleRead r.text token.line), anchor, es, ?_, ?_, ?_,
    ⟨huface.hidden, huface.rest⟩, rfl, rfl, hP⟩
  · unfold ruleStatement
    rw [bind_of_ok hkeyword, bind_of_ok htitle]
    refine (bind_of_ok (p := get) rfl).trans ?_
    rw [bind_of_ok hrule]
    refine (bind_of_ok (p := inTrial) (a := false) (t := last) ?_).trans ?_
    · show EStateM.Result.ok (decide (0 < last.trials)) last = _
      rw [hlast]
      rfl
    · rw [if_neg Bool.false_ne_true, bind_of_ok (declare_of_idle add hlast)]
      rfl
  · exact congrArg (· ++ [Entry.rule rule]) hupackage
  · exact hu.received

end Rulebook.Parser
