import Mathlib.Data.List.Infix
import MonkeyFront.Parsing.Engine
import MonkeyFront.Proofs.Ends

/-!
# Where the stack runs out

A parser whose frames run out is moving on to an expression: the current token has been passed, no
token has come behind the new one, and a token that has been read by then is lost.
-/

namespace MonkeyFront

lemma pull_rest_suffix (last : Token) (items : List Scanned) :
    (pull last items).rest <:+ items := by
  fun_induction pull last items with
  | case1 => exact List.suffix_rfl
  | case2 => exact List.suffix_cons _ _
  | case3 t rest h _ ih => exact ih.trans (List.suffix_cons _ _)
  | case4 t rest h => exact List.suffix_cons _ _

namespace State

/-- The stack runs out while the parser moves on from `s`: a pull has taken illegal characters at
most and the token behind them, if it is a number, or only one token has been taken, or none. -/
inductive Overruns (s : State) : State → Prop
  | pulled {token} : (pull s.last s.upcoming).token = .ok token → token.kind = .int →
      Overruns s (s.overrun (pull s.last s.upcoming).illegal (pull s.last s.upcoming).rest)
  | taken {token rest} : s.upcoming = .ok token :: rest → Overruns s (s.overrun [] rest)
  | entered : Overruns s (s.overrun [] s.upcoming)

variable {s s' : State}

lemma overruns_of_overrun? {reach : Reach} (h : s.overrun? reach = some s') : s.Overruns s' := by
  cases reach with
  | stored => cases h
  | storedUnlessNumber =>
    simp only [overrun?] at h
    split at h
    · next token htoken =>
      obtain ⟨hint, hs'⟩ := Option.ite_none_right_eq_some.1 h
      obtain rfl := Option.some.inj hs'
      exact .pulled htoken hint
    · cases h
  | read =>
    simp only [overrun?] at h
    rcases hs : s.upcoming with - | ⟨e | token, rest⟩ <;> rw [hs] at h
    · obtain rfl := Option.some.inj h
      have hentered := Overruns.entered (s := s)
      rwa [hs] at hentered
    · cases h
    · obtain rfl := Option.some.inj h
      exact .taken hs
  | entered =>
    obtain rfl := Option.some.inj h
    exact .entered

lemma advanceWithin_of_eq_none {reach : Reach} (h : s.overrun? reach = none) :
    advanceWithin reach s = advance s := by
  rw [advanceWithin, h]

lemma advanceWithin_of_eq_some {reach : Reach} (h : s.overrun? reach = some s') :
    advanceWithin reach s = .error .tooDeep s' := by
  rw [advanceWithin, h]

/-- A parser moves on as if there were frames enough, or the stack runs out. -/
lemma advanceWithin_eq_or_overruns (s : State) (reach : Reach) :
    advanceWithin reach s = advance s ∨
      ∃ s', advanceWithin reach s = .error .tooDeep s' ∧ s.Overruns s' := by
  cases h : s.overrun? reach with
  | none => exact .inl (advanceWithin_of_eq_none h)
  | some s' => exact .inr ⟨s', advanceWithin_of_eq_some h, overruns_of_overrun? h⟩

namespace Overruns

variable (h : s.Overruns s')

include h

lemma current_eq : s'.current = s.peek := by cases h <;> rfl

lemma peek_eq : s'.peek = s.peek := by cases h <;> rfl

lemma last_eq : s'.last = s.last := by cases h <;> rfl

lemma depth_eq : s'.depth = s.depth := by cases h <;> rfl

lemma recover_eq : s'.recover = s.recover := by cases h <;> rfl

lemma rules_eq : s'.rules = s.rules := by cases h <;> rfl

lemma diagnostics_eq : s'.diagnostics = s.diagnostics ++ s.skipped.map .ofIllegal := by
  cases h <;> rfl

lemma prefix_diagnostics : s.diagnostics <+: s'.diagnostics := by
  rw [h.diagnostics_eq]
  exact List.prefix_append _ _

lemma upcoming_suffix : s'.upcoming <:+ s.upcoming := by
  cases h with
  | pulled => exact pull_rest_suffix _ _
  | taken htaken =>
    rw [htaken]
    exact List.suffix_cons _ _
  | entered => exact List.suffix_rfl

lemma withRules (rules : Rules) :
    Overruns { s with rules := rules } { s' with rules := rules } := by
  cases h with
  | pulled htoken hint => exact .pulled (s := { s with rules := rules }) htoken hint
  | taken htaken => exact .taken (s := { s with rules := rules }) htaken
  | entered => exact .entered (s := { s with rules := rules })

end Overruns

end State

namespace Engine

/-- Layers of an engine, down to where the frames run out. -/
inductive Bounded : Engine → Prop
  | empty (reach : Reach) : Bounded ⟨advanceWithin reach, fun _ => throw .tooDeep⟩
  | layer (reach : Reach) {engines : Site → Engine} (h : ∀ site, Bounded (engines site)) :
      Bounded ⟨advanceWithin reach, layer engines⟩

lemma bounded_within (extra : Site → Nat) (frames due : Nat) :
    (within extra frames due).Bounded := by
  induction frames generalizing due with
  | zero => exact .empty _
  | succ frames ih =>
    cases due with
    | zero => exact .layer _ fun _ => ih _
    | succ due => exact ih due

/-- Where no more frames are left than are taken before the next layer there is none. -/
lemma within_eq (extra : Site → Nat) (frames due : Nat) : within extra frames due =
    if due < frames then within extra (frames - due) 0
    else ⟨advanceWithin (if due = frames then .read else .entered), fun _ => throw .tooDeep⟩ := by
  induction frames generalizing due with
  | zero => rfl
  | succ frames ih =>
    cases due with
    | zero => simp
    | succ due => simpa [within] using ih due

lemma bounded_ofBound (bound : Bound) : (ofBound bound).Bounded := bounded_within _ _ _

lemma exists_layer {bound : Bound} (h : 0 < bound.frames) : ∃ engines : Site → Engine,
    (∀ site, (engines site).Bounded) ∧ (ofBound bound).expression = layer engines := by
  obtain ⟨frames, extra⟩ := bound
  obtain ⟨frames, rfl⟩ := Nat.exists_eq_succ_of_ne_zero (Nat.ne_of_gt h)
  exact ⟨_, fun _ => bounded_within _ _ _, rfl⟩

lemma Bounded.nextToken_eq {engine : Engine} (h : engine.Bounded) :
    ∃ reach, engine.nextToken = advanceWithin reach := by
  cases h with
  | empty reach => exact ⟨reach, rfl⟩
  | layer reach => exact ⟨reach, rfl⟩

end Engine

end MonkeyFront
