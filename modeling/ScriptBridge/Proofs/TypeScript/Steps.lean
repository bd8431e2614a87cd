import ScriptBridge.TypeScript.Grammar

/-!
# Single steps of the parser

What the elementary rules do to a state, as equations: looking at the next token leaves the state alone,
taking it moves the place behind it, and building a node uses up one number.

* `ParserState.next`, `ParserState.behind`: the next token, and the state when it is taken.
* `Span.upTo`: the region of a node from its start to the last token that was taken.
* `advance_apply`, `build_apply`: taking a token and building a node.
* `Answers`: what holds of all answers of a rule and of the states it ends in, with one lemma for each way
  of putting rules together.
-/

namespace ScriptBridge.TypeScript

open ScriptBridge.TypeScript.Parser

namespace ParserState

/-- The next token; at the end of the tokens, the last one. -/
def next (s : ParserState) : Token :=
  (s.tokens[s.pos]?).getD (s.tokens.back?.getD default)

/-- The state when the next token is taken. -/
def behind (s : ParserState) : ParserState :=
  { s with pos := s.pos + 1 }

/-- The region of the last token that was taken. -/
def last (s : ParserState) : Span :=
  ((s.tokens[s.pos - 1]?).getD default).span

end ParserState

section
variable {α β : Type} {s s' : ParserState}

theorem bind_ok {p : Parser α} {a : α} {f : α → Parser β} (h : p s = .ok a s') :
    (p >>= f) s = f a s' := by
  simp only [Bind.bind, EStateM.bind, h]

theorem current_bind {f : Token → Parser β} : (current >>= f) s = f s.next s := rfl

theorem get_bind {f : ParserState → Parser β} : (get >>= f) s = f s s := rfl

end

theorem advance_apply {s : ParserState} (h : s.next.kind ≠ .eof) : advance s = .ok s.next s.behind := by
  show (if s.next.kind != .eof then _ else _ : Parser Token) s = _
  rw [if_pos (bne_iff_ne.mpr h)]
  rfl

/-- The end of the tokens stays. -/
theorem advance_eof {s : ParserState} (h : s.next.kind = .eof) : advance s = .ok s.next s := by
  show (if s.next.kind != .eof then _ else _ : Parser Token) s = _
  rw [if_neg (by simp [h])]
  rfl

theorem Token.ne_eof_of_isAny {t : Token} {texts : List String} (h : t.isAny texts = true) :
    t.kind ≠ .eof := by
  intro heof
  rw [isAny, heof] at h
  cases h

theorem Token.ne_eof_of_kind {t : Token} {kind : TokenKind} (h : (t.kind == kind) = true)
    (hkind : kind ≠ .eof) : t.kind ≠ .eof :=
  eq_of_beq h ▸ hkind

theorem accept_apply {s : ParserState} {text : String} (h : s.next.isAny [text] = true) :
    accept text s = .ok true s.behind := by
  show (if s.next.isAny [text] then _ else _ : Parser Bool) s = _
  rw [if_pos h, bind_ok (advance_apply (Token.ne_eof_of_isAny h))]
  rfl

theorem accept_stay {s : ParserState} {text : String} (h : ¬s.next.isAny [text] = true) :
    accept text s = .ok false s := by
  show (if s.next.isAny [text] then _ else _ : Parser Bool) s = _
  rw [if_neg h]
  rfl

/-- The region from a start to a last token: nothing of it lies before the start. -/
def Span.upTo (start last : Span) : Span :=
  if last.stop < start.start then
    { start with stop := start.start, endLine := start.line, endCol := start.col }
  else { start with stop := last.stop, endLine := last.endLine, endCol := last.endCol }

theorem spanFrom_apply (start : Span) (s : ParserState) :
    spanFrom start s = .ok (start.upTo s.last) s := by
  show (if s.last.stop < start.start then pure _ else pure _ : Parser Span) s = _
  rw [Span.upTo]
  split <;> rfl

theorem markFrom_apply (start : Span) (s : ParserState) :
    markFrom start s = .ok ⟨s.nextId, start.upTo s.last⟩ { s with nextId := s.nextId + 1 } := by
  simp only [markFrom, Bind.bind, EStateM.bind, spanFrom_apply]
  rfl

/-- Building a node uses up its number and moves nothing. -/
theorem build_apply (start : Span) (f : Mark → Node) (s : ParserState) :
    build start f s = .ok (f ⟨s.nextId, start.upTo s.last⟩) { s with nextId := s.nextId + 1 } := by
  simp only [build, Bind.bind, EStateM.bind, markFrom_apply]
  rfl

/-! ## Answers -/

/-- Whatever a rule answers at a state, and the state in which it then ends, have a property. -/
def Answers {α : Type} (s : ParserState) (p : Parser α) (P : α → ParserState → Prop) : Prop :=
  ∀ a s', p s = .ok a s' → P a s'

section
variable {α β : Type} {s : ParserState} {P : β → ParserState → Prop}

theorem Answers.bind {p : Parser α} {f : α → Parser β}
    (hf : ∀ a s₁, p s = .ok a s₁ → Answers s₁ (f a) P) : Answers s (p >>= f) P := by
  intro b s' h
  simp only [Bind.bind, EStateM.bind] at h
  cases hp : p s with
  | ok a s₁ =>
    rw [hp] at h
    exact hf a s₁ hp b s' h
  | error fault s₁ =>
    rw [hp] at h
    cases h

/-- A rule of which something is known, and what follows. -/
theorem Answers.then {p : Parser α} {f : α → Parser β} {Q : α → ParserState → Prop}
    (hp : Answers s p Q) (hf : ∀ a s₁, Q a s₁ → Answers s₁ (f a) P) : Answers s (p >>= f) P :=
  .bind fun a s₁ h => hf a s₁ (hp a s₁ h)

theorem Answers.pure_bind {a : α} {f : α → Parser β} (h : Answers s (f a) P) :
    Answers s (pure a >>= f) P :=
  h

theorem Answers.map {p : Parser α} {f : α → β} (h : Answers s p fun a s' => P (f a) s') :
    Answers s (f <$> p) P := by
  intro b s' hb
  simp only [Functor.map, EStateM.map] at hb
  cases hp : p s with
  | ok a s₁ =>
    rw [hp] at hb
    cases hb
    exact h a _ hp
  | error fault s₁ =>
    rw [hp] at hb
    cases hb

theorem Answers.mono {p : Parser β} {Q : β → ParserState → Prop} (h : Answers s p P)
    (himp : ∀ b s', P b s' → Q b s') : Answers s p Q :=
  fun b s' hb => himp b s' (h b s' hb)

theorem answers_pure {b : β} (h : P b s) : Answers s (pure b) P := by
  intro a s' ha
  cases ha
  exact h

theorem answers_throw (fault : ParseFault) : Answers s (throw fault : Parser β) P := by
  intro a s' ha
  cases ha

theorem answers_failAt (t : Token) (cause : GrammarCause) :
    Answers s (failAt t cause : Parser β) P :=
  answers_throw _

theorem answers_fail (cause : GrammarCause) : Answers s (fail cause : Parser β) P :=
  .bind fun t _ _ => answers_failAt t cause

theorem answers_failSpan (span : Span) (cause : GrammarCause) :
    Answers s (failSpan span cause : Parser β) P :=
  answers_throw _

theorem Answers.ite {c : Prop} [Decidable c] {p q : Parser β} (hp : Answers s p P)
    (hq : Answers s q P) : Answers s (if c then p else q) P := by
  split
  · exact hp
  · exact hq

/-- A choice whose first way may use the condition. -/
theorem Answers.dite {c : Prop} [Decidable c] {p q : Parser β} (hp : c → Answers s p P)
    (hq : Answers s q P) : Answers s (if c then p else q) P := by
  split
  · exact hp ‹_›
  · exact hq

theorem Answers.current {f : Token → Parser β} (h : Answers s (f s.next) P) :
    Answers s (Parser.current >>= f) P :=
  h

theorem Answers.seesAny {f : Bool → Parser β} {texts : List String}
    (h : Answers s (f (s.next.isAny texts)) P) : Answers s (Parser.seesAny texts >>= f) P :=
  h

theorem Answers.sees {f : Bool → Parser β} {text : String}
    (h : Answers s (f (s.next.isAny [text])) P) : Answers s (Parser.sees text >>= f) P :=
  h

theorem Answers.peek {f : Token → Parser β} {n : Nat} (h : ∀ t, Answers s (f t) P) :
    Answers s (Parser.peek n >>= f) P :=
  h _

/-- A check that fails, before a rule. -/
theorem Answers.unless {c : Prop} [Decidable c] {check : Parser α} {p : Parser β}
    (hcheck : ∀ a s₁, check s ≠ .ok a s₁) (hp : Answers s p P) :
    Answers s (if c then check >>= fun _ => p else p) P :=
  .ite (.bind fun a s₁ h => absurd h (hcheck a s₁)) hp

end

end ScriptBridge.TypeScript
