import Rulebook.Proofs.Choosing
import Rulebook.Proofs.Inert
import Rulebook.Proofs.Totality
import Rulebook.Proofs.Unread

/-!
# Where nothing is reported

A production recovers only after it has reported. So outside of trials, where it receives no
complaint, it leaves the diagnostics alone and the place of the last recovery. Nor does a cap matter
there.
-/

namespace Rulebook

open Rulebook.Parser

/-- The second collector has no cap, and received as many complaints. -/
structure Collector.Uncaps (c d : Collector) : Prop where
  uncapped : d.maxErrors = none
  recovering : d.recovering = c.recovering
  received : d.received = c.received

theorem Collector.congruence_uncaps : Collector.Congruence Uncaps where
  report {c d} h e ruleName := by
    refine ⟨?_, ?_, ?_⟩
    · rw [(extends_report d e ruleName).maxErrors, h.uncapped]
    · rw [recovering_report, recovering_report]
    · rw [received_report, received_report, h.received]
  remark {c d} h message token ruleName := by
    refine ⟨?_, ?_, ?_⟩
    · rw [(extends_remark d message token ruleName).maxErrors, h.uncapped]
    · rw [Collector.remark, Collector.remark, recovering_add, recovering_add, h.recovering]
    · rw [received_remark, received_remark, h.received]
  tokenMatched h := ⟨h.uncapped, rfl, h.received⟩

theorem Collector.received_eq_zero_iff {c : Collector} (hhonest : c.Honest)
    (hcap : c.maxErrors = none) : c.received = 0 ↔ c.errors = [] := by
  constructor
  · intro h
    unfold received at h
    exact List.length_eq_zero_iff.1 (by omega)
  · intro h
    have hnone : ¬0 < c.suppressed := fun hpos =>
      hhonest (by rw [hcap]; simp) (.inr hpos) h
    unfold received
    rw [h, List.length_nil]
    omega

namespace Parser

variable {α β : Type} {s t u : State}

/-- What comes of a run outside of trials, as far as complaints go. -/
structure State.Heard (s t : State) : Prop where
  trials : t.trials = 0
  received_le : s.collector.received ≤ t.collector.received
  lastRecovery : t.collector.received = s.collector.received → t.lastRecovery = s.lastRecovery
  collector : t.collector.received = s.collector.received →
    t.collector = s.collector ∨ t.collector = s.collector.tokenMatched

namespace State.Heard

theorem refl (hs : s.trials = 0) : s.Heard s :=
  ⟨hs, Nat.le_refl _, fun _ => rfl, fun _ => .inl rfl⟩

/-- Whatever is done besides, if the diagnostics and the place of recovery stay as they are. -/
theorem of_eq (hs : s.trials = 0) (htrials : t.trials = s.trials) (hc : t.collector = s.collector)
    (hr : t.lastRecovery = s.lastRecovery) : s.Heard t :=
  ⟨htrials.trans hs, Nat.le_of_eq (congrArg Collector.received hc).symm, fun _ => hr,
    fun _ => .inl hc⟩

theorem trans (h : s.Heard t) (h' : t.Heard u) : s.Heard u := by
  have hle := h.received_le
  have hle' := h'.received_le
  refine ⟨h'.trials, Nat.le_trans hle hle', fun heq => ?_, fun heq => ?_⟩
  · exact (h'.lastRecovery (by omega)).trans (h.lastRecovery (by omega))
  · have hst := h.collector (by omega)
    have htu := h'.collector (by omega)
    rcases hst with hst | hst <;> rcases htu with htu | htu <;> rw [htu, hst]
    · exact .inl rfl
    all_goals exact .inr rfl

/-- Nothing is asked of a run that received a complaint. -/
theorem of_lt (htrials : t.trials = 0) (h : s.collector.received < t.collector.received) :
    s.Heard t :=
  ⟨htrials, Nat.le_of_lt h, fun heq => by omega, fun heq => by omega⟩

theorem advanced (hs : s.trials = 0) : s.Heard s.advanced := by
  have hc : s.advanced.collector = s.collector.tokenMatched := if_pos hs
  exact ⟨hs, Nat.le_of_eq (congrArg Collector.received hc).symm, fun _ => rfl, fun _ => .inr hc⟩

end State.Heard

theorem received_reported (s : State) (e : ParseError) :
    s.collector.received < (s.reported e).collector.received := by
  show _ < (s.collector.report e s.ruleName).received
  rw [Collector.received_report]
  exact Nat.lt_succ_self _

theorem received_remarked (s : State) (message : String) (token : Token) :
    s.collector.received < (s.remarked message token).collector.received := by
  show _ < (s.collector.remark message token s.ruleName).received
  rw [Collector.received_remark]
  exact Nat.lt_succ_self _

theorem after_recover (hs : s.trials = 0) (e : ParseError) (kinds : List TokenKind) :
    after (do report e; recover kinds) s = (s.reported e).recovered kinds := by
  have hreport : report e s = .ok () (s.reported e) := by
    rw [report_eq, if_neg (by omega)]
  exact after_of_ok ((bind_of_ok hreport).trans (recover_eq kinds _))

theorem after_dropDeepStatement (s : State) : after dropDeepStatement s = s.cleared.dropped :=
  after_of_ok (dropDeepStatement_eq_dropped s)

/-- A statement that nests too deep is remarked on. -/
theorem received_dropped (s : State) : s.collector.received < s.dropped.collector.received :=
  received_remarked (s.noted _) _ _

theorem State.Heard.invariant (s : State) : StateInvariant s.Heard where
  advanced h := h.trans (.advanced h.trials)
  showing h := h.trans (.of_eq h.trials rfl rfl rfl)
  popTrivia {t} h := by
    obtain ⟨cursor, heq⟩ := after_popTrivia t
    rw [heq]
    exact h.trans (.of_eq h.trials rfl rfl rfl)
  relabelled name events h := h.trans (.of_eq h.trials rfl rfl rfl)
  stacked stack h := h.trans (.of_eq h.trials rfl rfl rfl)
  declared f h := h.trans (.of_eq h.trials rfl rfl rfl)
  report {t} e h := by
    have htrials := h.trials
    rw [after_of_ok (report_eq e t), if_neg (by omega)]
    exact h.trans (.of_lt h.trials (received_reported t e))
  remark {t} message token h := by
    have htrials := h.trials
    rw [after_of_ok (remark_eq message token t), if_neg (by omega)]
    exact h.trans (.of_lt h.trials (received_remarked t message token))
  recover {t} e kinds h := by
    rw [after_recover h.trials]
    exact h.trans (.of_lt h.trials (received_reported t e))
  dropDeepStatement {t} h :=
    after_dropDeepStatement t ▸ h.trans (.of_lt rfl (received_dropped t.cleared))

/-- Outside of trials, what recovers has received a complaint, and what received none has not
touched the diagnostics but for taking note that a token matched. -/
theorem Composed.heard {p : Parser α} (hp : Composed p) (hs : s.trials = 0) :
    s.Heard (after p s) :=
  (State.Heard.invariant s).composed hp (.refl hs)

/-- A production that declares nothing and receives no complaint leaves all but its place as
it is. -/
theorem State.Calm.of_unreported {p : Parser α} [Orderly p] [Composed p] [Inert p] {a : α}
    (hs : s.trials = 0) (hname : s.ruleName = none) (h : p s = .ok a t)
    (hreceived : t.collector.received = s.collector.received) : s.Calm t := by
  have hheard := Composed.heard (p := p) inferInstance hs
  rw [after_of_ok h] at hheard
  have hevolves := Orderly.evolves_ok p h
  refine ⟨hevolves, Inert.package_ok p h, ?_, hheard.lastRecovery hreceived,
    hheard.collector hreceived⟩
  rcases hevolves.ruleName with heq | heq
  · exact heq
  · exact heq.trans hname.symm

end Parser

end Rulebook
