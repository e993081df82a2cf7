import Mathlib.Tactic.Common
import MonkeyFront.Parsing.Recovery

/-!
# How operations end

`Ends p s post fail` says how the operation `p` ends from the state `s`: it yields a value and
reaches a state that meet `post`, or it fails and leaves a state that meet `fail`.
-/

namespace MonkeyFront

variable {α β : Type}

/-- How the operation `p` ends from the state `s`. -/
def Ends (p : Parse α) (s : State) (post : α → State → Prop) (fail : Failure → State → Prop) :
    Prop :=
  match p s with
  | .ok a s' => post a s'
  | .error e s' => fail e s'

variable {s : State} {post : α → State → Prop} {fail : Failure → State → Prop}

lemma Ends.mono {p : Parse α} {post' : α → State → Prop} {fail' : Failure → State → Prop}
    (h : Ends p s post fail) (hpost : ∀ a s', post a s' → post' a s')
    (hfail : ∀ e s', fail e s' → fail' e s') : Ends p s post' fail' := by
  unfold Ends at h ⊢
  cases hp : p s with
  | ok a s' => exact hpost a s' (by simpa only [hp] using h)
  | error e s' => exact hfail e s' (by simpa only [hp] using h)

lemma Ends.imp {p : Parse α} {post' : α → State → Prop} (h : Ends p s post fail)
    (hpost : ∀ a s', post a s' → post' a s') : Ends p s post' fail :=
  h.mono hpost fun _ _ hf => hf

lemma ends_run (p : Parse α) (s : State) :
    Ends p s (fun a s' => p s = .ok a s') (fun e s' => p s = .error e s') := by
  unfold Ends
  cases p s <;> rfl

lemma Ends.of_run {p : Parse α} (h : ∀ a s', p s = .ok a s' → post a s') :
    Ends p s post (fun _ _ => True) :=
  (ends_run p s).mono h fun _ _ _ => trivial

lemma Ends.and {p : Parse α} {post' : α → State → Prop} {fail' : Failure → State → Prop}
    (h : Ends p s post fail) (h' : Ends p s post' fail') :
    Ends p s (fun a s' => post a s' ∧ post' a s') (fun e s' => fail e s' ∧ fail' e s') := by
  unfold Ends at h h' ⊢
  cases hp : p s <;> simp only [hp] at h h' <;> exact ⟨h, h'⟩

lemma Ends.of_ok {p : Parse α} {a : α} {s' : State} (h : Ends p s post fail)
    (hp : p s = .ok a s') : post a s' := by
  simpa only [Ends, hp] using h

lemma Ends.of_error {p : Parse α} {e : Failure} {s' : State} (h : Ends p s post fail)
    (hp : p s = .error e s') : fail e s' := by
  simpa only [Ends, hp] using h

@[simp] lemma ends_pure (a : α) : Ends (pure a) s post fail ↔ post a s := Iff.rfl

@[simp] lemma ends_get {post : State → State → Prop} : Ends get s post fail ↔ post s s := Iff.rfl

@[simp] lemma ends_modify (f : State → State) {post : PUnit → State → Prop} :
    Ends (modify f) s post fail ↔ post ⟨⟩ (f s) := Iff.rfl

@[simp] lemma ends_reject (complaint : Complaint) (token : Token) :
    Ends (reject complaint token) s post fail ↔
      fail (.rejected ⟨complaint, token.span⟩) (s.report complaint token) := Iff.rfl

@[simp] lemma ends_addDepth (n : Int) {post : Unit → State → Prop} :
    Ends (addDepth n) s post fail ↔ post ⟨⟩ { s with depth := s.depth + n } := Iff.rfl

@[simp] lemma ends_bind (p : Parse β) (f : β → Parse α) :
    Ends (p >>= f) s post fail ↔ Ends p s (fun b s' => Ends (f b) s' post fail) fail := by
  simp only [Ends, bind, EStateM.bind]
  cases p s <;> rfl

@[simp] lemma ends_tryCatch (p : Parse α) (f : Failure → Parse α) :
    Ends (tryCatch p f) s post fail ↔
      Ends p s post (fun e s' => Ends (f e) s' post fail) := by
  simp only [Ends, tryCatch, tryCatchThe, MonadExceptOf.tryCatch, EStateM.tryCatch]
  cases p s <;> rfl

lemma ends_ite {c : Prop} [Decidable c] {p q : Parse α} (hp : c → Ends p s post fail)
    (hq : ¬c → Ends q s post fail) : Ends (if c then p else q) s post fail := by
  split
  · exact hp ‹_›
  · exact hq ‹_›

/-- A loop keeps what its iterations keep and ends where its test fails, provided that its bound is
not below a size that every iteration lowers. -/
theorem ends_repeatWhile {test : State → α → Bool} {step : α → Parse α} (size : State → Nat)
    (inv : α → State → Prop)
    (iteration : ∀ a s, inv a s → test s a = true →
      0 < size s ∧ Ends (step a) s (fun a' s' => inv a' s' ∧ size s' < size s) fail)
    (n : Nat) (a : α) (s : State) (hs : inv a s) (hn : size s ≤ n) :
    Ends (repeatWhile test step n a) s (fun a' s' => inv a' s' ∧ test s' a' = false) fail := by
  induction n generalizing a s with
  | zero =>
    refine ⟨hs, Bool.eq_false_iff.2 fun ht => ?_⟩
    have := (iteration a s hs ht).1
    omega
  | succ n ih =>
    simp only [repeatWhile, ends_bind, ends_get]
    refine ends_ite (fun ht => ?_) (fun ht => ⟨hs, Bool.eq_false_iff.2 ht⟩)
    simp only [ends_bind]
    refine (iteration a s hs ht).2.imp fun a' s' h => ih a' s' h.1 ?_
    have := h.2
    omega

/-- A collecting loop relates the states before and after it as its iterations do, provided that its
bound is not below a size that every iteration lowers. -/
theorem ends_collectWhile {test : State → Bool} {step : Parse α} (size : State → Nat)
    (inv : State → Prop) (rel : State → List α → State → Prop)
    (fail : State → Failure → State → Prop)
    (stop : ∀ s, inv s → test s = false → rel s [] s)
    (iteration : ∀ s, inv s → test s = true →
      0 < size s ∧ Ends step s (fun a s' => inv s' ∧ size s' < size s ∧
        (∀ as s'', rel s' as s'' → rel s (a :: as) s'') ∧
        (∀ e s'', fail s' e s'' → fail s e s'')) (fail s))
    (n : Nat) (s : State) (hs : inv s) (hn : size s ≤ n) :
    Ends (collectWhile test step n) s (rel s) (fail s) := by
  induction n generalizing s with
  | zero =>
    refine stop s hs (Bool.eq_false_iff.2 fun ht => ?_)
    have := (iteration s hs ht).1
    omega
  | succ n ih =>
    simp only [collectWhile, ends_bind, ends_get]
    refine ends_ite (fun ht => ?_) (fun ht => stop s hs (Bool.eq_false_iff.2 ht))
    simp only [ends_bind, ends_pure]
    refine (iteration s hs ht).2.imp ?_
    rintro a s' ⟨hinv, hsize, hrel, hfail⟩
    exact (ih s' hinv (by omega)).mono (fun as s'' h => hrel as s'' h) hfail

end MonkeyFront
