import ScriptBridge.Proofs.TypeScript.Steps
import ScriptBridge.Proofs.TypeScript.Weights

/-!
# Rules that come to an end

A rule that is given enough levels of nesting for what is left to read comes to an end: it answers, it
finds a fault of grammar, or it finds a numeral that has no value. In each case the parser stands on one
of its tokens; it is never behind the last one. How many levels are enough depends on the load, which
counts the tokens of substitutions too, since these are parsed inside the template that they stand in.

* `Reaches`: where a rule may take the parser.
* `Outcome`, `Finishes`: how a rule may end, and rules that do.
* `Finishes.bind`, `FinishesAt.advance`, `Finishes.accept`: rules put together from rules.
* `Finishes.speculate`: a trial ends if the rule that is tried does.
* `Finishes.commaUntil`, `Finishes.commaList`, `Finishes.itemsUntil`: repetitions of items, each of which
  takes a token.
-/

namespace ScriptBridge.TypeScript

open ScriptBridge.TypeScript.Parser

/-- A parser has moved on to a state in which it stands on one of its tokens. -/
structure Reaches (s s' : ParserState) : Prop where
  advances : Advances s s'
  standing : s'.Standing

theorem Reaches.refl {s : ParserState} (h : s.Standing) : Reaches s s :=
  ⟨.refl s, h⟩

theorem Reaches.trans {s s' s'' : ParserState} (h : Reaches s s') (h' : Reaches s' s'') :
    Reaches s s'' :=
  ⟨h.advances.trans h'.advances, h'.standing⟩

/-- A state on the same token as one that was reached. -/
theorem Reaches.stay {s s₁ s' : ParserState} (h : Reaches s s₁) (htokens : s'.tokens = s₁.tokens)
    (hpos : s'.pos = s₁.pos) : Reaches s s' := by
  obtain ⟨⟨hle, hcut⟩, ⟨⟨order, sturdy, inside⟩, silent⟩⟩ := h
  rw [← htokens] at hcut order sturdy inside silent
  rw [← hpos] at hle inside
  exact ⟨⟨hle, hcut⟩, ⟨order, sturdy, inside⟩, silent⟩

/-- How a rule may end: with an answer, `gain` tokens or more being taken, or with a fault that is in the
tokens. -/
inductive Outcome {α : Type} (gain : Nat) (s : ParserState) :
    EStateM.Result ParseFault ParserState α → Prop
  | ok {a : α} {s' : ParserState} (h : Reaches s s') (hg : s.pos + gain ≤ s'.pos) :
      Outcome gain s (.ok a s')
  | grammar {cause : GrammarCause} {line col : Nat} {s' : ParserState} (h : Reaches s s') :
      Outcome gain s (.error (.grammar cause line col) s')
  | numeral {fault : NumeralFault} {s' : ParserState} (h : Reaches s s')
      (hf : ∃ t ∈ s.tokens.toList, t.Faulty fault) : Outcome gain s (.error (.numeral fault) s')

/-- A rule that comes to an end if `k` levels of nesting are enough for what is left. -/
def Finishes {α : Type} (gain k : Nat) (p : Parser α) : Prop :=
  ∀ s : ParserState, s.Standing → 3 * s.load ≤ k → Outcome gain s (p s)

/-- A rule that comes to an end then if the next token is the given one. -/
def FinishesAt {α : Type} (t : Token) (gain k : Nat) (p : Parser α) : Prop :=
  ∀ s : ParserState, s.Standing → s.next = t → 3 * s.load ≤ k → Outcome gain s (p s)

variable {α β : Type} {p q : Parser α} {gain g k k' : Nat} {t : Token}

/-! ## Putting rules together -/

namespace Outcome

variable {s s₁ s' : ParserState} {r : EStateM.Result ParseFault ParserState α}

/-- What has ended further on has ended. -/
theorem of_reaches (h : Outcome g s' r) (hr : Reaches s s') (hg : s.pos + gain ≤ s'.pos + g) :
    Outcome gain s r := by
  cases h with
  | ok h hg' => exact .ok (hr.trans h) (by omega)
  | grammar h => exact .grammar (hr.trans h)
  | numeral h hf => exact .numeral (hr.trans h) (hr.advances.faulty hf)

/-- The first rule may itself be run further on. -/
theorem bind {f : α → Parser β} (h : Outcome g s (p s₁))
    (hf : ∀ a s', p s₁ = .ok a s' → Reaches s s' → s.pos + g ≤ s'.pos → Outcome gain s (f a s')) :
    Outcome gain s ((p >>= f) s₁) := by
  simp only [Bind.bind, EStateM.bind]
  generalize hr : p s₁ = r at h
  cases h with
  | ok h hg => exact hf _ _ hr h hg
  | grammar h => exact .grammar h
  | numeral h hf => exact .numeral h hf

end Outcome

/-- What is left to read for a second rule is less by the tokens that the first one took. -/
theorem Outcome.then {s : ParserState} {f : α → Parser β} (h : Outcome g s (p s))
    (hload : 3 * s.load ≤ k) (hf : ∀ a, Finishes (gain - g) (k - 3 * g) (f a)) :
    Outcome gain s ((p >>= f) s) := by
  refine h.bind fun a s' _ hr hg => ?_
  have hless := hr.advances.load_le hr.standing
  exact (hf a s' hr.standing (by omega)).of_reaches hr (by omega)

namespace Finishes

variable {f : α → Parser β}

theorem mono (h : Finishes g k p) (hk : k' ≤ k) : Finishes g k' p :=
  fun s hs hload => h s hs (Nat.le_trans hload hk)

theorem atToken (h : Finishes g k p) : FinishesAt t g k p :=
  fun s hs _ => h s hs

/-- What a rule takes need not be known. -/
theorem forget (h : Finishes g k p) : Finishes 0 k p :=
  fun s hs hload => (h s hs hload).of_reaches (.refl hs) (Nat.le_add_right _ _)

theorem pure (a : α) : Finishes 0 k (Pure.pure a : Parser α) :=
  fun _ hs _ => .ok (.refl hs) (Nat.le_refl _)

theorem bind (hp : Finishes g k p) (hf : ∀ a, Finishes (gain - g) (k - 3 * g) (f a)) :
    Finishes gain k (p >>= f) :=
  fun s hs hload => (hp s hs hload).then hload hf

theorem map (hp : Finishes gain k p) (f : α → β) : Finishes gain k (f <$> p) := by
  rw [map_eq_pure_bind]
  exact hp.bind fun a => (Nat.sub_self gain).symm ▸ Finishes.pure (f a)

theorem ite {c : Prop} [Decidable c] (hp : Finishes gain k p) (hq : Finishes gain k q) :
    Finishes gain k (if c then p else q) := by
  split
  · exact hp
  · exact hq

/-- A step that is only taken sometimes, before a rule. -/
theorem before {c : Prop} [Decidable c] {step : Parser β} (hstep : Finishes 0 k step)
    (hp : Finishes gain k p) : Finishes gain k (if c then step >>= fun _ => p else p) :=
  .ite (hstep.bind fun _ => hp) hp

/-- A rule with nothing to take and nothing to change. -/
theorem of_stay (h : ∀ s, ∃ a s', p s = .ok a s' ∧ s'.tokens = s.tokens ∧ s'.pos = s.pos) :
    Finishes 0 k p := by
  intro s hs _
  obtain ⟨a, s', hp, htokens, hpos⟩ := h s
  rw [hp]
  exact .ok ((Reaches.refl hs).stay htokens hpos) (Nat.le_of_eq hpos.symm)

/-- A rule that cannot be reached, since there is always something to read. -/
theorem of_lt (hk : k < 3) : Finishes gain k p := by
  intro s hs hload
  have := hs.load_pos
  omega

end Finishes

namespace FinishesAt

variable {f : α → Parser β}

theorem ite {c : Prop} [Decidable c] (hp : c → FinishesAt t gain k p) (hq : FinishesAt t gain k q) :
    FinishesAt t gain k (if c then p else q) := by
  split
  · exact hp ‹_›
  · exact hq

/-- A step that is only taken sometimes, before a rule. -/
theorem before {c : Prop} [Decidable c] {step : Parser β} (hstep : c → FinishesAt t 0 k step)
    (hp : Finishes gain k p) : FinishesAt t gain k (if c then step >>= fun _ => p else p) := by
  refine .ite (fun hc s hs ht hload => ?_) hp.atToken
  exact (hstep hc s hs ht hload).then hload fun _ => hp

end FinishesAt

/-! ## Looking at tokens -/

section
variable {f : Token → Parser β}

theorem Finishes.current (h : ∀ t, FinishesAt t gain k (f t)) :
    Finishes gain k (Parser.current >>= f) :=
  fun s hs hload => h s.next s hs rfl hload

theorem FinishesAt.current (h : FinishesAt t gain k (f t)) :
    FinishesAt t gain k (Parser.current >>= f) := by
  rintro s hs rfl hload
  exact h s hs rfl hload

theorem Finishes.peek {n : Nat} (h : ∀ t, Finishes gain k (f t)) :
    Finishes gain k (Parser.peek n >>= f) :=
  fun s hs hload => h _ s hs hload

theorem FinishesAt.peek {n : Nat} (h : ∀ u, FinishesAt t gain k (f u)) :
    FinishesAt t gain k (Parser.peek n >>= f) :=
  fun s hs ht hload => h _ s hs ht hload

end

theorem FinishesAt.get {f : ParserState → Parser β} (h : ∀ s, FinishesAt t gain k (f s)) :
    FinishesAt t gain k (MonadState.get >>= f) :=
  fun s hs ht hload => h s s hs ht hload

section
variable {f : Bool → Parser β} {texts : List String} {text : String}

theorem FinishesAt.seesAny (h : FinishesAt t gain k (f (t.isAny texts))) :
    FinishesAt t gain k (Parser.seesAny texts >>= f) := by
  rintro s hs rfl hload
  exact h s hs rfl hload

theorem Finishes.seesAny (h : ∀ b, Finishes gain k (f b)) :
    Finishes gain k (Parser.seesAny texts >>= f) :=
  fun s hs hload => h _ s hs hload

theorem FinishesAt.sees (h : FinishesAt t gain k (f (t.isAny [text]))) :
    FinishesAt t gain k (Parser.sees text >>= f) :=
  .seesAny h

theorem Finishes.sees (h : ∀ b, Finishes gain k (f b)) :
    Finishes gain k (Parser.sees text >>= f) :=
  .seesAny h

end

/-- A rule that needs the next token, at any. -/
theorem Finishes.of_token (h : ∀ t, FinishesAt t gain k p) : Finishes gain k p :=
  fun s hs hload => h s.next s hs rfl hload

/-! ## Failing -/

theorem finishes_failAt (t : Token) (cause : GrammarCause) :
    Finishes gain k (failAt t cause : Parser α) :=
  fun _ hs _ => .grammar (.refl hs)

theorem finishes_failSpan (span : Span) (cause : GrammarCause) :
    Finishes gain k (failSpan span cause : Parser α) :=
  fun _ hs _ => .grammar (.refl hs)

theorem finishes_fail (cause : GrammarCause) : Finishes gain k (fail cause : Parser α) :=
  .current fun t => (finishes_failAt t cause).atToken

/-- A check that fails, before a rule that may use that it did not. -/
theorem FinishesAt.unless {c : Prop} [Decidable c] {u : Token} {cause : GrammarCause}
    {f : α → Parser β} {rest : Parser β} (h : ¬c → FinishesAt t gain k rest) :
    FinishesAt t gain k (if c then failAt u cause >>= f else rest) := by
  split
  · exact fun _ hs _ _ => .grammar (.refl hs)
  · exact h ‹_›

/-! ## Taking tokens -/

theorem ParserState.Standing.reaches_behind {s : ParserState} (h : s.Standing)
    (hk : s.next.kind ≠ .eof) : Reaches s s.behind :=
  ⟨⟨Nat.le_succ _, .refl _ _⟩, h.sound.behind hk, h.silent⟩

theorem FinishesAt.advance {f : Token → Parser β} (ht : t.kind ≠ .eof)
    (h : Finishes (gain - 1) (k - 3) (f t)) : FinishesAt t gain k (Parser.advance >>= f) := by
  rintro s hs rfl hload
  have hr := hs.reaches_behind ht
  have hless : s.behind.load + (s.pos + 1 - s.pos) ≤ s.load := hr.advances.load_le hr.standing
  rw [bind_ok (advance_apply ht)]
  exact (h s.behind hr.standing (by omega)).of_reaches hr (show s.pos + gain ≤ s.pos + 1 + _ by omega)

/-- The next token can be taken if it is known to have a text. -/
theorem FinishesAt.of_text (ht : t.text ≠ "") (h : t.kind ≠ .eof → FinishesAt t gain k p) :
    FinishesAt t gain k p := by
  rintro s hs rfl hload
  exact h (hs.ne_eof_of_text ht) s hs rfl hload

theorem FinishesAt.take (ht : t.kind ≠ .eof) : FinishesAt t 1 k Parser.advance := by
  rw [← bind_pure Parser.advance]
  exact advance ht (.pure t)

/-- Taking the next token, whichever it is; the end of the tokens stays. -/
theorem finishes_advance : Finishes 0 k advance := by
  intro s hs hload
  by_cases hk : s.next.kind = .eof
  · rw [advance_eof hk]
    exact .ok (.refl hs) (Nat.le_refl _)
  · exact (FinishesAt.take hk s hs rfl hload).of_reaches (.refl hs) (Nat.le_add_right _ _)

theorem Finishes.accept {text : String} (hp : Finishes (gain - 1) (k - 3) p)
    (hq : Finishes gain k q) :
    Finishes gain k (Parser.accept text >>= fun isNext => if isNext = true then p else q) := by
  intro s hs hload
  by_cases ht : s.next.isAny [text] = true
  · rw [bind_ok (accept_apply ht), if_pos rfl]
    have h : FinishesAt s.next gain k (Parser.advance >>= fun _ => p) :=
      .advance (Token.ne_eof_of_isAny ht) hp
    have hrun := h s hs rfl hload
    rwa [bind_ok (advance_apply (Token.ne_eof_of_isAny ht))] at hrun
  · rw [bind_ok (accept_stay ht), if_neg Bool.false_ne_true]
    exact hq s hs hload

theorem finishes_accept (text : String) : Finishes 0 k (accept text) := by
  have hflag (isNext : Bool) :
      (if isNext = true then pure true else pure false : Parser Bool) = pure isNext := by
    cases isNext <;> rfl
  have h : Finishes 0 k (accept text >>= _) := .accept (.pure true) (.pure false)
  simpa only [hflag, bind_pure] using h

theorem finishes_expect (text : String) : Finishes 1 k (expect text) :=
  .current fun t => .ite (fun ht => .take (Token.ne_eof_of_isAny ht)) (finishes_failAt t _).atToken

theorem finishes_skip (text : String) : Finishes 1 k (skip text) :=
  (finishes_expect text).bind fun _ => .pure _

theorem finishes_semicolon : Finishes 0 k semicolon :=
  (finishes_accept ";").bind fun _ => .pure _

/-- Where one `>` is taken off a longer operator, no token is taken. -/
theorem finishes_closeAngle : Finishes 0 k closeAngle := by
  intro s hs hload
  have hkeeps := keeps_closeAngle s
  have hrun : closeAngle s = (if s.next.kind == .op && s.next.text == ">" then discard advance
      else if s.next.kind == .op && s.next.text.toList.head? == some '>' then
        modify fun s' => { s' with tokens := s'.tokens.setIfInBounds s'.pos s.next.behindAngle }
      else failAt s.next (.expected ">" s.next.describe) : Parser Unit) s := rfl
  rw [hrun] at hkeeps ⊢
  split
  · exact (finishes_advance.bind fun _ => .pure _) s hs hload
  · rename_i hone
    rw [if_neg hone] at hkeeps
    split
    · rename_i hangle
      rw [if_pos hangle] at hkeeps
      exact .ok ⟨hkeeps, hkeeps.standing hs (by
        show s.pos < (s.tokens.setIfInBounds _ _).size
        rw [Array.size_setIfInBounds]
        exact hs.sound.inside)⟩ (Nat.le_refl _)
    · exact finishes_failAt _ _ s hs hload

/-! ## Building nodes -/

theorem finishes_freshMark (span : Span) : Finishes 0 k (freshMark span) :=
  .of_stay fun _ => ⟨_, _, rfl, rfl, rfl⟩

theorem finishes_markFrom (start : Span) : Finishes 0 k (markFrom start) :=
  .of_stay fun s => ⟨_, _, markFrom_apply start s, rfl, rfl⟩

theorem finishes_build (start : Span) (f : Mark → Node) : Finishes 0 k (build start f) :=
  .of_stay fun s => ⟨_, _, build_apply start f s, rfl, rfl⟩

theorem finishes_buildAt (t : Token) (f : Mark → Node) : Finishes 0 k (buildAt t f) :=
  .of_stay fun _ => ⟨_, _, rfl, rfl, rfl⟩

theorem finishes_identOf (t : Token) : Finishes 0 k (identOf t) :=
  .of_stay fun _ => ⟨_, _, rfl, rfl, rfl⟩

theorem Token.ne_eof_of_isIdentifier (h : t.isIdentifier = true) : t.kind ≠ .eof :=
  ne_eof_of_kind (Bool.and_eq_true_iff.mp h).1 (by decide)

/-- A token that is taken and becomes a node. -/
theorem FinishesAt.token {f : Mark → Node} (ht : t.kind ≠ .eof) :
    FinishesAt t 1 k (do buildAt (← Parser.advance) f) :=
  .advance ht (finishes_buildAt t f)

theorem finishes_identifier : Finishes 1 k identifier :=
  .current fun t => .ite (fun ht => .advance (Token.ne_eof_of_isIdentifier ht) (finishes_identOf t))
    (finishes_failAt t _).atToken

theorem finishes_word : Finishes 1 k word :=
  .current fun t => .ite
    (fun ht => .advance (Token.ne_eof_of_kind ht (by decide)) (finishes_identOf t))
    (finishes_failAt t _).atToken

/-! ## Backtracking -/

/-- After a trial that has failed the parser is back where it was. -/
theorem Finishes.speculate (hp : Finishes gain k p) : Finishes 0 k (speculate p) := by
  intro s hs hload
  have h := hp s hs hload
  unfold Parser.speculate
  generalize p s = r at h
  cases h with
  | ok h hg => exact .ok h (Nat.le_of_add_right_le hg)
  | @grammar cause line col s' h =>
    have hadvances := h.advances.rewind (Nat.le_refl s.pos) s.noIn
    refine .ok ⟨hadvances, hadvances.standing hs ?_⟩ (Nat.le_refl _)
    exact hadvances.tokens.size_eq.symm ▸ hs.sound.inside
  | numeral h hf => exact .numeral h hf

theorem Finishes.withNoIn (hp : Finishes gain k p) (noIn : Bool) :
    Finishes gain k (withNoIn noIn p) := by
  intro s hs hload
  have hset : Reaches s { s with noIn } := (Reaches.refl hs).stay rfl rfl
  have h := hp { s with noIn } hset.standing hload
  show Outcome gain s ((p >>= fun a => modify (fun s' => { s' with noIn := s.noIn }) >>= fun _ =>
    Pure.pure a) { s with noIn })
  refine .of_reaches (Outcome.bind h fun a s' _ hr hg => ?_) hset (Nat.le_refl _)
  exact .ok (hr.stay rfl rfl) hg

theorem Finishes.withIn (hp : Finishes gain k p) : Finishes gain k (withIn p) :=
  hp.withNoIn false

/-! ## Repetition -/

section
variable {item : Parser α} {n : Nat}

/-- Items that each take a token come to an end if the repetition may go round once for each token that
is left. -/
theorem Finishes.commaUntil (hi : Finishes 1 k item) (close : String) (hk : k' ≤ k)
    (hn : k' ≤ 3 * n + 2) : Finishes 0 k' (commaUntil close item n) := by
  induction n generalizing k' with
  | zero => exact .of_lt (by omega)
  | succ n ih =>
    refine .sees fun _ => .ite (.pure []) ((hi.mono hk).bind fun x => .accept ?_ (.pure _))
    exact (ih (by omega) (by omega)).bind fun xs => .pure _

theorem Finishes.commaList (hi : Finishes 1 k item) (hk : k' ≤ k) (hn : k' ≤ 3 * n + 2) :
    Finishes 1 k' (commaList item n) := by
  induction n generalizing k' with
  | zero => exact .of_lt (by omega)
  | succ n ih =>
    refine (hi.mono hk).bind fun x => .accept ?_ (.pure _)
    exact (ih (by omega) (by omega)).forget.bind fun xs => .pure _

theorem Finishes.itemsUntil (hi : Finishes 1 k item) (closes : List String) (hk : k' ≤ k)
    (hn : k' ≤ 3 * n + 2) : Finishes 0 k' (itemsUntil closes item n) := by
  induction n generalizing k' with
  | zero => exact .of_lt (by omega)
  | succ n ih =>
    refine .seesAny fun _ => .ite (.pure []) (.current fun t => Finishes.atToken ?_)
    refine .before (finishes_failAt t _) ((hi.mono hk).bind fun x => ?_)
    exact (ih (by omega) (by omega)).bind fun xs => .pure _

end

theorem finishes_skipNested (opening closing : String) {n : Nat} (depth : Nat) (hn : k ≤ 3 * n + 2) :
    Finishes 0 k (skipNested opening closing n depth) := by
  induction n generalizing k depth with
  | zero => exact .of_lt (by omega)
  | succ n ih =>
    refine .current fun t => .unless fun ht => .advance (by simpa using ht) ?_
    refine .ite (ih _ (by omega)) (.ite ?_ (ih depth (by omega)))
    cases depth with
    | zero => exact .pure _
    | succ d => exact ih d (by omega)

theorem finishes_skipBalanced {bound : Nat} (opening closing : String) (hn : k ≤ 3 * bound + 5) :
    Finishes 1 k (skipBalanced bound opening closing) :=
  (finishes_skip opening).bind fun _ => finishes_skipNested opening closing 0 (by omega)

end ScriptBridge.TypeScript
