import ScriptBridge.TypeScript.Grammar

/-!
# How the parser moves on

Whatever a rule of the grammar does, and whether it succeeds or fails, it ends at or behind the place
where it starts, and what it does to the tokens comes to this: operators that begin with `>`, at or behind
that place, can have lost the front of their text, also in the substitutions of templates there.

* `Cut`: what can happen to a token.
* `Advances`: what a rule can do to the state.
* `Keeps`: rules that do no more than that, with one lemma for each way of putting rules together.
-/

namespace ScriptBridge.TypeScript

/-! ## Tokens that are cut -/

namespace Token

/-- Whether a token is an operator that is split where one `>` is taken. -/
def canSplit (t : Token) : Bool :=
  t.kind == .op && t.text != ">" && t.text.toList.head? == some '>'

/-- What is left of a token of which one `>` is taken. -/
def behindAngle (t : Token) : Token :=
  { t with
    text := String.ofList t.text.toList.tail
    span := { t.span with start := t.span.start + 1, col := t.span.col + 1 } }

end Token

/-- One token is left of another one, after some were split: of an operator the front is gone, or the
tokens of a substitution of a template are themselves left of others. -/
inductive Cut : Token → Token → Prop
  | same (t : Token) : Cut t t
  | angle {t t' : Token} (h : t.canSplit = true) (rest : Cut t.behindAngle t') : Cut t t'
  | piece {t t' : Token} {k : Nat} {tokens tokens' : List Token} {literal : String}
      (hk : t.pieces[k]? = some (tokens, literal)) (hlen : tokens'.length = tokens.length)
      (hcut : ∀ (i : Nat) (u u' : Token), tokens[i]? = some u → tokens'[i]? = some u' → Cut u u')
      (rest : Cut { t with pieces := t.pieces.set k (tokens', literal) } t') : Cut t t'

theorem Cut.trans {t t' t'' : Token} (h : Cut t t') (h' : Cut t' t'') : Cut t t'' := by
  induction h with
  | same => exact h'
  | angle h _ ih => exact .angle h (ih h')
  | piece hk hlen hcut _ _ ih => exact .piece hk hlen hcut (ih h')

/-- Neither a token nor one in its substitutions can be split. -/
inductive Whole : Token → Prop
  | intro {t : Token} (op : t.canSplit = false)
      (inner : ∀ piece ∈ t.pieces, ∀ u ∈ piece.1, Whole u) : Whole t

/-- A token that cannot be split is left as it is. -/
theorem Cut.eq_of_whole {t t' : Token} (h : Cut t t') (hw : Whole t) : t' = t := by
  induction h with
  | same => rfl
  | angle h _ _ =>
    obtain ⟨hop, -⟩ := hw
    rw [h] at hop
    cases hop
  | @piece t t' k tokens tokens' literal hk hlen hcut _ ih ihrest =>
    obtain ⟨-, hinner⟩ := id hw
    have hmem := List.mem_of_getElem? hk
    have htokens : tokens' = tokens := by
      refine List.ext_getElem hlen fun i hi' hi => ?_
      exact ih i _ _ (List.getElem?_eq_getElem hi) (List.getElem?_eq_getElem hi')
        (hinner _ hmem _ (List.getElem_mem hi))
    obtain ⟨hbound, hget⟩ := List.getElem?_eq_some_iff.mp hk
    have hset : { t with pieces := t.pieces.set k (tokens', literal) } = t := by
      rw [htokens, ← hget, List.set_getElem_self]
      cases t
      rfl
    rw [hset] at ihrest
    exact ihrest hw

/-- Tokens are left of others, those before a place as they are. -/
structure AllCut (start : Nat) (tokens tokens' : Array Token) : Prop where
  size_eq : tokens'.size = tokens.size
  cut : ∀ (i : Nat) (t t' : Token), tokens[i]? = some t → tokens'[i]? = some t' → Cut t t'
  before : ∀ i : Nat, i < start → tokens'[i]? = tokens[i]?

theorem AllCut.refl (start : Nat) (tokens : Array Token) : AllCut start tokens tokens where
  size_eq := rfl
  cut i t t' h h' := by
    cases h.symm.trans h'
    exact .same t
  before _ _ := rfl

theorem AllCut.trans {start start' : Nat} {a b c : Array Token} (hle : start ≤ start')
    (h : AllCut start a b) (h' : AllCut start' b c) : AllCut start a c where
  size_eq := h'.size_eq.trans h.size_eq
  cut i t t'' ht ht'' := by
    have hi : i < b.size := h.size_eq ▸ (Array.getElem?_eq_some_iff.mp ht).1
    have hb : b[i]? = some b[i] := Array.getElem?_eq_getElem hi
    exact (h.cut i t _ ht hb).trans (h'.cut i _ t'' hb ht'')
  before i hi := (h'.before i (Nat.lt_of_lt_of_le hi hle)).trans (h.before i hi)

/-- One token at or behind a place is cut. -/
theorem allCut_of_one {start i : Nat} {tokens tokens' : Array Token} (hi : start ≤ i)
    (hsize : tokens'.size = tokens.size) (hsame : ∀ j : Nat, j ≠ i → tokens'[j]? = tokens[j]?)
    (hcut : ∀ t t', tokens[i]? = some t → tokens'[i]? = some t' → Cut t t') :
    AllCut start tokens tokens' where
  size_eq := hsize
  cut j t t' ht ht' := by
    by_cases hj : j = i
    · subst hj
      exact hcut t t' ht ht'
    · rw [hsame j hj, ht] at ht'
      cases ht'
      exact .same t
  before j hj := hsame j (Nat.ne_of_lt (Nat.lt_of_lt_of_le hj hi))

/-! ## States -/

/-- One state is at or behind another one, and its tokens are left of those there. -/
structure Advances (s s' : ParserState) : Prop where
  pos_le : s.pos ≤ s'.pos
  tokens : AllCut s.pos s.tokens s'.tokens

theorem Advances.refl (s : ParserState) : Advances s s :=
  ⟨Nat.le_refl _, .refl _ _⟩

theorem Advances.trans {s s' s'' : ParserState} (h : Advances s s') (h' : Advances s' s'') :
    Advances s s'' :=
  ⟨Nat.le_trans h.pos_le h'.pos_le, h.tokens.trans h.pos_le h'.tokens⟩

/-- The state in which a run ends. -/
def endState {ε σ α : Type} : EStateM.Result ε σ α → σ
  | .ok _ s => s
  | .error _ s => s

/-- A parser that only moves on. -/
def Keeps {α : Type} (p : Parser α) : Prop :=
  ∀ s, Advances s (endState (p s))

/-! ## Putting rules together -/

section
variable {α β : Type} {p q : Parser α}

theorem keeps_pure (a : α) : Keeps (pure a : Parser α) :=
  fun s => .refl s

theorem keeps_throw (fault : ParseFault) : Keeps (throw fault : Parser α) :=
  fun s => .refl s

theorem keeps_get : Keeps (get : Parser ParserState) :=
  fun s => .refl s

/-- A run of a rule is followed by another one, with a place that neither must fall behind. -/
theorem Advances.bind {f : α → Parser β} {s₀ s : ParserState}
    (hp : Advances s₀ (endState (p s)))
    (hf : ∀ a s', p s = .ok a s' → Advances s₀ s' → Advances s₀ (endState (f a s'))) :
    Advances s₀ (endState ((p >>= f) s)) := by
  simp only [Bind.bind, EStateM.bind]
  cases hr : p s with
  | ok a s₁ =>
    rw [hr] at hp
    exact hf a s₁ hr hp
  | error fault s₁ =>
    rw [hr] at hp
    exact hp

theorem Keeps.bind_from {f : α → Parser β} (hp : Keeps p) {s₀ s : ParserState} (hs : Advances s₀ s)
    (hf : ∀ a s', Advances s₀ s' → Advances s₀ (endState (f a s'))) :
    Advances s₀ (endState ((p >>= f) s)) :=
  .bind (hs.trans (hp s)) fun a s' _ => hf a s'

theorem Keeps.bind {f : α → Parser β} (hp : Keeps p) (hf : ∀ a, Keeps (f a)) : Keeps (p >>= f) :=
  fun s => hp.bind_from (.refl s) fun a s₁ h => h.trans (hf a s₁)

theorem Keeps.map {f : α → β} (hp : Keeps p) : Keeps (f <$> p) :=
  hp.bind fun _ => keeps_pure _

theorem Keeps.ite {c : Prop} [Decidable c] (hp : Keeps p) (hq : Keeps q) :
    Keeps (if c then p else q) := by
  split
  · exact hp
  · exact hq

/-- A step that is only taken sometimes, followed by another one. -/
theorem Keeps.before {c : Prop} [Decidable c] {step : Parser β} (hstep : Keeps step)
    (hp : Keeps p) : Keeps (if c then step >>= fun _ => p else p) :=
  .ite (hstep.bind fun _ => hp) hp

/-- A change of what does not belong to the tokens and the place. -/
theorem keeps_modify {f : ParserState → ParserState} (hpos : ∀ s, (f s).pos = s.pos)
    (htokens : ∀ s, (f s).tokens = s.tokens) : Keeps (modify f) := by
  intro s
  show Advances s (f s)
  refine ⟨Nat.le_of_eq (hpos s).symm, ?_⟩
  rw [htokens]
  exact .refl _ _

end

/-! ## Taking tokens -/

open ScriptBridge.TypeScript.Parser

theorem keeps_peek (n : Nat) : Keeps (peek n) :=
  keeps_get.bind fun _ => keeps_pure _

theorem keeps_current : Keeps current :=
  keeps_peek 0

theorem keeps_step : Keeps (modify fun s => { s with pos := s.pos + 1 }) :=
  fun _ => ⟨Nat.le_succ _, .refl _ _⟩

theorem keeps_advance : Keeps advance :=
  keeps_current.bind fun _ => .before keeps_step (keeps_pure _)

theorem keeps_seesAny (texts : List String) : Keeps (seesAny texts) :=
  keeps_current.bind fun _ => keeps_pure _

theorem keeps_sees (text : String) : Keeps (sees text) :=
  keeps_seesAny [text]

section
variable {α : Type}

theorem keeps_failAt (t : Token) (cause : GrammarCause) : Keeps (failAt t cause : Parser α) :=
  keeps_throw _

theorem keeps_fail (cause : GrammarCause) : Keeps (fail cause : Parser α) :=
  keeps_current.bind fun t => keeps_failAt t cause

theorem keeps_failSpan (span : Span) (cause : GrammarCause) :
    Keeps (failSpan span cause : Parser α) :=
  keeps_throw _

end

theorem keeps_expect (text : String) : Keeps (expect text) :=
  keeps_current.bind fun t => .ite keeps_advance (keeps_failAt t _)

theorem keeps_skip (text : String) : Keeps (skip text) :=
  (keeps_expect text).bind fun _ => keeps_pure _

theorem keeps_accept (text : String) : Keeps (accept text) :=
  (keeps_sees text).bind fun _ => .ite (keeps_advance.bind fun _ => keeps_pure _) (keeps_pure _)

theorem keeps_semicolon : Keeps semicolon :=
  (keeps_accept ";").bind fun _ => keeps_pure _

/-- Where one `>` is taken off a longer operator, that operator is cut. -/
theorem keeps_closeAngle : Keeps closeAngle := by
  intro s
  let t := (s.tokens[s.pos]?).getD (s.tokens.back?.getD default)
  show Advances s (endState ((if t.kind == .op && t.text == ">" then discard advance
    else if t.kind == .op && t.text.toList.head? == some '>' then
      modify fun s => { s with tokens := s.tokens.setIfInBounds s.pos t.behindAngle }
    else failAt t (.expected ">" t.describe) : Parser Unit) s))
  split
  · exact keeps_advance.map s
  · rename_i hone
    split
    · rename_i hangle
      simp only [Bool.and_eq_true, beq_iff_eq, not_and] at hone hangle
      refine ⟨Nat.le_refl _, allCut_of_one (Nat.le_refl s.pos) Array.size_setIfInBounds ?_ ?_⟩
      · exact fun j hj => Array.getElem?_setIfInBounds_ne (Ne.symm hj)
      · intro u u' hu hu'
        have ht : t = u := congrArg (·.getD (s.tokens.back?.getD default)) hu
        have hset : some t.behindAngle = some u' :=
          (Array.getElem?_setIfInBounds_self_of_lt (Array.getElem?_eq_some_iff.mp hu).1).symm.trans hu'
        cases hset
        rw [← ht]
        refine .angle ?_ (.same _)
        simp [Token.canSplit, hangle.1, hone hangle.1, hangle.2]
    · exact keeps_failAt t _ s

/-! ## Backtracking -/

/-- Going back to where a parser started leaves the tokens as they have become. -/
theorem Advances.rewind {s s' : ParserState} (h : Advances s s') {pos : Nat} (hpos : s.pos ≤ pos)
    (noIn : Bool) : Advances s { s' with pos, noIn } :=
  ⟨hpos, h.tokens⟩

section
variable {α : Type} {p : Parser α}

theorem Keeps.speculate (hp : Keeps p) : Keeps (speculate p) := by
  intro s
  have h := hp s
  unfold Parser.speculate
  split <;> rename_i hs <;> rw [hs] at h
  · exact h
  · exact h.rewind (Nat.le_refl _) _
  · exact h

theorem Keeps.withNoIn (hp : Keeps p) (noIn : Bool) : Keeps (withNoIn noIn p) := by
  have hset (b : Bool) : Keeps (modify fun s => { s with noIn := b }) :=
    keeps_modify (fun _ => rfl) fun _ => rfl
  exact keeps_get.bind fun s => (hset noIn).bind fun _ => hp.bind fun _ =>
    (hset s.noIn).bind fun _ => keeps_pure _

theorem Keeps.withIn (hp : Keeps p) : Keeps (withIn p) :=
  hp.withNoIn false

end

/-! ## Building nodes -/

theorem keeps_spanFrom (start : Span) : Keeps (spanFrom start) :=
  keeps_get.bind fun _ => .ite (keeps_pure _) (keeps_pure _)

theorem keeps_freshMark (span : Span) : Keeps (freshMark span) :=
  fun _ => ⟨Nat.le_refl _, .refl _ _⟩

theorem keeps_markFrom (start : Span) : Keeps (markFrom start) :=
  (keeps_spanFrom start).bind keeps_freshMark

theorem keeps_build (start : Span) (f : Mark → Node) : Keeps (build start f) :=
  (keeps_markFrom start).bind fun _ => keeps_pure _

theorem keeps_buildAt (t : Token) (f : Mark → Node) : Keeps (buildAt t f) :=
  (keeps_freshMark t.span).bind fun _ => keeps_pure _

theorem keeps_identOf (t : Token) : Keeps (identOf t) :=
  (keeps_freshMark t.span).bind fun _ => keeps_pure _

theorem keeps_identifier : Keeps identifier :=
  keeps_current.bind fun t => .ite (keeps_advance.bind keeps_identOf) (keeps_failAt t _)

theorem keeps_word : Keeps word :=
  keeps_current.bind fun t => .ite (keeps_advance.bind keeps_identOf) (keeps_failAt t _)

/-! ## Repetition -/

section
variable {α : Type} {item : Parser α}

theorem Keeps.commaUntil (hi : Keeps item) (close : String) (n : Nat) :
    Keeps (commaUntil close item n) := by
  induction n with
  | zero => exact keeps_throw _
  | succ n ih =>
    refine (keeps_sees close).bind fun _ => .ite (keeps_pure _) (hi.bind fun x => ?_)
    exact (keeps_accept ",").bind fun _ => .ite (ih.bind fun _ => keeps_pure _) (keeps_pure _)

theorem Keeps.commaList (hi : Keeps item) (n : Nat) : Keeps (commaList item n) := by
  induction n with
  | zero => exact keeps_throw _
  | succ n ih =>
    refine hi.bind fun x => (keeps_accept ",").bind fun _ => ?_
    exact .ite (ih.bind fun _ => keeps_pure _) (keeps_pure _)

theorem Keeps.itemsUntil (hi : Keeps item) (closes : List String) (n : Nat) :
    Keeps (itemsUntil closes item n) := by
  induction n with
  | zero => exact keeps_throw _
  | succ n ih =>
    refine (keeps_seesAny closes).bind fun _ => .ite (keeps_pure _) (keeps_current.bind fun t => ?_)
    exact .before (keeps_failAt t _) (hi.bind fun _ => ih.bind fun _ => keeps_pure _)

end

theorem keeps_skipNested (opening closing : String) (n depth : Nat) :
    Keeps (skipNested opening closing n depth) := by
  induction n generalizing depth with
  | zero => exact keeps_throw _
  | succ n ih =>
    refine keeps_current.bind fun t => .before (keeps_failAt t _) (keeps_advance.bind fun _ => ?_)
    refine .ite (ih _) (.ite ?_ (ih depth))
    cases depth with
    | zero => exact keeps_pure _
    | succ d => exact ih d

theorem keeps_skipBalanced (bound : Nat) (opening closing : String) :
    Keeps (skipBalanced bound opening closing) :=
  (keeps_skip opening).bind fun _ => keeps_skipNested opening closing bound 0

end ScriptBridge.TypeScript
