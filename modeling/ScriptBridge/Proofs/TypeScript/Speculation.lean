import ScriptBridge.Proofs.TypeScript.AdvanceStatements

/-!
# Failed attempts

The heads of arrow functions and of function types are parsed on trial, with types as deeply nested as
the text has them. An attempt that fails leaves the parser where it was, with `in` as it was. Its tokens
are as before up to the place of the attempt; behind it, operators that begin with `>` can have lost the
front of their text, because closing a list of type arguments splits them and going back does not join
them again. Where no such operator stands, all tokens are as before.

* `Restored`: what going back gives.
* `speculate_restores`: both heads, at any depth of nesting and in any state.
-/

namespace ScriptBridge.TypeScript

open ScriptBridge.TypeScript.Parser

/-- What is left of a state when an attempt has failed. -/
structure Restored (s s' : ParserState) : Prop where
  pos : s'.pos = s.pos
  noIn : s'.noIn = s.noIn
  tokens : AllCut s.pos s.tokens s'.tokens
  /-- Only operators that can be split make a difference. -/
  same : (∀ (i : Nat) (t : Token), s.pos ≤ i → s.tokens[i]? = some t → Whole t) →
    s'.tokens = s.tokens

/-- Tokens of which none can be split are left as they are. -/
theorem AllCut.eq_of_whole {start : Nat} {tokens tokens' : Array Token} (h : AllCut start tokens tokens')
    (hw : ∀ (i : Nat) (t : Token), start ≤ i → tokens[i]? = some t → Whole t) : tokens' = tokens := by
  refine Array.ext h.size_eq fun i hi' hi => ?_
  have hget : tokens[i]? = some tokens[i] := Array.getElem?_eq_getElem hi
  have hget' : tokens'[i]? = some tokens'[i] := Array.getElem?_eq_getElem hi'
  by_cases hstart : start ≤ i
  · exact (h.cut i _ _ hget hget').eq_of_whole (hw i _ hstart hget)
  · have hbefore := h.before i (Nat.lt_of_not_le hstart)
    rw [hget, hget'] at hbefore
    exact Option.some.inj hbefore

/-- Going back from a failure of a parser that only moves on. -/
theorem restored_of_keeps {α : Type} {p : Parser α} (hp : Keeps p) {s s₁ : ParserState}
    {cause : GrammarCause} {line col : Nat} (h : p s = .error (.grammar cause line col) s₁) :
    ∃ s', speculate p s = .ok none s' ∧ Restored s s' := by
  have hmoved := hp s
  rw [h] at hmoved
  refine ⟨{ s₁ with pos := s.pos, noIn := s.noIn }, ?_, rfl, rfl, hmoved.tokens, ?_⟩
  · rw [speculate, h]
  · exact hmoved.tokens.eq_of_whole

/-- Where the head of an arrow function or of a function type is tried and is not there, the parser goes
back to the state before, except for operators behind its place that were split. -/
theorem speculate_restores (n : Nat) (s s₁ : ParserState) (cause : GrammarCause) (line col : Nat) :
    ((rules n).arrowHead s = .error (.grammar cause line col) s₁ →
      ∃ s', speculate (rules n).arrowHead s = .ok none s' ∧ Restored s s') ∧
    ((rules n).functionTypeHead s = .error (.grammar cause line col) s₁ →
      ∃ s', speculate (rules n).functionTypeHead s = .ok none s' ∧ Restored s s') :=
  ⟨restored_of_keeps (advancing_rules n).arrowHead,
    restored_of_keeps (advancing_rules n).functionTypeHead⟩

/-- The state at `(x) : a<b>=c`. -/
def splitState : ParserState where
  tokens :=
    let token (kind : TokenKind) (text : String) : Token := { kind, text, span := {} }
    #[token .op "(", token .ident "x", token .op ")", token .op ":", token .ident "a", token .op "<",
      token .ident "b", token .op ">=", token .ident "c", token .eof ""]

theorem speculate_restores_split :
    (∃ s', speculate (rules 5).arrowHead splitState = .ok none s' ∧ Restored splitState s') ∧
    ∃ s', speculate (rules 5).functionTypeHead splitState = .ok none s' ∧ Restored splitState s' :=
  ⟨(speculate_restores 5 splitState _ (.missing "=>") 1 2).1 (by rfl),
    (speculate_restores 5 splitState _ (.missing "=>") 1 1).2 (by rfl)⟩

/-- The operator `>=` stays split after the attempt. -/
example : (endState (speculate (rules 5).arrowHead splitState)).tokens[7]?.map Token.text = some "=" := by
  rfl

end ScriptBridge.TypeScript
