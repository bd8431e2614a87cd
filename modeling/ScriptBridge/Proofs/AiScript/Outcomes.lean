import ScriptBridge.Proofs.AiScript.Rules
import ScriptBridge.Proofs.AiScript.TokenList

/-!
# How reading ends

The rules of the grammar are read on tokens of which only the last one stands for the end of the text
(`Ended`). A rule that is given enough levels of nesting for the tokens that are left comes to an end
(`Finishes`): it gives a value and leaves such tokens again, or it tells what is wrong with the text. How
many levels are enough depends on the `weight` of the tokens, which counts the sources of interpolations
too, since these are split and read on their own.

A token behind the last one is asked for in one case only: an object literal whose entries reach the
end of the text, where the next key should stand (`RunsOut`).

* `Finishes.bind`, `Finishes.current`, `FinishesAt.advance`: rules put together from rules.
* `Parser.itemsUntil_finishes`: a repetition of items, each of which takes a token.
* `EndsAtKey`: such an object literal among the tokens, or in an interpolation.
-/

namespace ScriptBridge.AiScript

open ScriptBridge.AiScript.Parser

variable {α β : Type} {t : Token} {ts us vs : List Token} {gain g k k' : Nat} {word : String}

/-! ## Object literals without an end -/

/-- The tokens behind the opening brace of an object literal are separators and whole entries, up to
the end of the text, where one more key should stand. -/
inductive RunsOut (r : Rules) : List Token → Prop
  | atEnd {t : Token} (ht : t.kind = .eof) : RunsOut r [t]
  | entry {ts us vs : List Token} {e : String × Node} (hclose : sees "\x7d" ts = .ok (false, ts))
      (he : r.entry ts = .ok (e, us)) (hs : skipSeparators us = .ok ((), vs)) (h : RunsOut r vs) :
      RunsOut r ts

/-- An object literal among the tokens, or in an interpolation, reaches the end of its text where a
key should stand. -/
inductive EndsAtKey : List Token → Prop
  | literal {ts before rest us : List Token} {brace : Token} {n : Nat}
      (ht : ts = before ++ brace :: rest) (hb : brace.isAny ["\x7b"] = true)
      (hs : skipSeparators rest = .ok ((), us)) (h : RunsOut (rules n) us) : EndsAtKey ts
  | interpolation {ts us : List Token} {t : Token} {source : String} {line col : Nat} (ht : t ∈ ts)
      (hp : .code source line col ∈ t.parts) (hs : tokenize source line col = .ok us)
      (h : EndsAtKey us) : EndsAtKey ts

theorem EndsAtKey.of_suffix (h : EndsAtKey us) (hs : us <:+ ts) : EndsAtKey ts := by
  cases h with
  | @literal _ before rest _ brace _ ht hb hskip h =>
    obtain ⟨front, rfl⟩ := hs
    rw [ht, ← List.append_assoc]
    exact .literal rfl hb hskip h
  | interpolation ht hp htokens h => exact .interpolation (hs.subset ht) hp htokens h

/-! ## Rules that come to an end -/

/-- An operator or a word has a text. -/
theorem Token.text_ne_of_isAny {words : List String} (h : t.isAny words = true) (hw : "" ∉ words) :
    t.text ≠ "" := by
  rintro ht
  simp only [Token.isAny, ht, Bool.and_eq_true, List.contains_iff_mem] at h
  exact hw h.2

/-- How a rule may end: with a value, `gain` tokens or more being taken, or with a fault of the text. `P`
is what it means to ask for a token behind the last one. -/
inductive Outcome (P : Prop) (gain : Nat) (ts : List Token) :
    Except ReadError (α × List Token) → Prop
  | ok {x : α} {us : List Token} (hs : us <:+ ts) (he : Ended us) (hg : us.length + gain ≤ ts.length) :
      Outcome P gain ts (.ok (x, us))
  | lexical (e : LexError) : Outcome P gain ts (.error (.lexical e))
  | grammar (cause : GrammarCause) (line col : Nat) :
      Outcome P gain ts (.error (.grammar cause line col))
  | pastEnd (h : P) : Outcome P gain ts (.error .pastEnd)

/-- How reading a text on its own may end. `P` is what it means to ask for a token behind the last
one. -/
inductive Settles (P : Prop) : Except ReadError α → Prop
  | ok (x : α) : Settles P (.ok x)
  | lexical (e : LexError) : Settles P (.error (.lexical e))
  | grammar (cause : GrammarCause) (line col : Nat) : Settles P (.error (.grammar cause line col))
  | pastEnd (h : P) : Settles P (.error .pastEnd)

theorem Settles.imp {P Q : Prop} {x : Except ReadError α} (h : Settles P x) (hP : P → Q) :
    Settles Q x := by
  cases h with
  | ok a => exact .ok a
  | lexical e => exact .lexical e
  | grammar cause line col => exact .grammar cause line col
  | pastEnd h => exact .pastEnd (hP h)

theorem Settles.bind {P Q : Prop} {x : Except ReadError α} {f : α → Except ReadError β}
    (h : Settles P x) (hP : P → Q) (hf : ∀ a, Settles Q (f a)) : Settles Q (x >>= f) := by
  cases h with
  | ok a => exact hf a
  | lexical e => exact .lexical e
  | grammar cause line col => exact .grammar cause line col
  | pastEnd h => exact .pastEnd (hP h)

/-- What was read, without the tokens that are left. -/
theorem Outcome.settles {P Q : Prop} {r : Except ReadError (α × List Token)} (h : Outcome P gain ts r)
    (hP : P → Q) : Settles Q (r.map Prod.fst) := by
  cases h with
  | ok => exact .ok _
  | lexical e => exact .lexical e
  | grammar cause line col => exact .grammar cause line col
  | pastEnd h => exact .pastEnd (hP h)

/-- A rule that comes to an end on tokens for which `k` levels of nesting are enough. -/
def Finishes (gain k : Nat) (p : Parser α) : Prop :=
  ∀ ts, Ended ts → 2 * weight ts ≤ k → Outcome (EndsAtKey ts) gain ts (p ts)

/-- A rule that comes to an end on such tokens if the first of them is the given one. -/
def FinishesAt (t : Token) (gain k : Nat) (p : Parser α) : Prop :=
  ∀ ts, Ended (t :: ts) → 2 * weight (t :: ts) ≤ k →
    Outcome (EndsAtKey (t :: ts)) gain (t :: ts) (p (t :: ts))

/-- What ends on the tokens that are left has ended on all of them. -/
theorem Outcome.lift {P Q : Prop} {r : Except ReadError (α × List Token)} (h : Outcome P g us r)
    (hP : P → Q) (hs : us <:+ ts) (hg : us.length + gain ≤ ts.length + g) : Outcome Q gain ts r := by
  cases h with
  | ok hs' he hg' => exact .ok (hs'.trans hs) he (by omega)
  | lexical e => exact .lexical e
  | grammar cause line col => exact .grammar cause line col
  | pastEnd h => exact .pastEnd (hP h)

theorem Outcome.of_suffix {r : Except ReadError (α × List Token)}
    (h : Outcome (EndsAtKey us) g us r) (hs : us <:+ ts) (hg : us.length + gain ≤ ts.length + g) :
    Outcome (EndsAtKey ts) gain ts r :=
  h.lift (·.of_suffix hs) hs hg

theorem Outcome.bind {P Q : Prop} {p : Parser α} {f : α → Parser β} (h : Outcome P g ts (p ts))
    (hP : P → Q) (hf : ∀ x us, us <:+ ts → Ended us → us.length + g ≤ ts.length →
      p ts = .ok (x, us) → Outcome Q gain ts (f x us)) : Outcome Q gain ts ((p >>= f) ts) := by
  show Outcome Q gain ts (StateT.bind p f ts)
  simp only [StateT.bind, Bind.bind, Except.bind]
  generalize hr : p ts = result at h
  cases h with
  | ok hs he hg => exact hf _ _ hs he hg hr
  | lexical e => exact .lexical e
  | grammar cause line col => exact .grammar cause line col
  | pastEnd h => exact .pastEnd (hP h)

namespace Finishes

variable {p q : Parser α} {f : α → Parser β}

theorem mono (h : Finishes gain k p) (hk : k' ≤ k) : Finishes gain k' p :=
  fun ts he hw => h ts he (hw.trans hk)

theorem atToken (h : Finishes gain k p) : FinishesAt t gain k p :=
  fun ts => h (t :: ts)

theorem pure (x : α) : Finishes 0 k (Pure.pure x : Parser α) :=
  fun ts he _ => .ok (List.suffix_refl ts) he (Nat.le_refl _)

/-- What the second rule is left with is lighter by the tokens that the first one took. -/
theorem bind (hp : Finishes g k p) (hf : ∀ x, Finishes (gain - g) (k - 2 * g) (f x)) :
    Finishes gain k (p >>= f) := by
  intro ts he hw
  refine (hp ts he hw).bind id fun x us hs he' hg _ => ?_
  have hlight := weight_suffix hs
  exact (hf x us he' (by omega)).of_suffix hs (by omega)

theorem map (hp : Finishes gain k p) (f : α → β) : Finishes gain k (f <$> p) := by
  rw [map_eq_pure_bind]
  exact hp.bind fun x => (Nat.sub_self gain).symm ▸ Finishes.pure (f x)

/-- A rule that looks at the next token first. -/
theorem current {f : Token → Parser β} (h : ∀ t, FinishesAt t gain k (f t)) :
    Finishes gain k (current >>= f) := by
  intro ts he hw
  obtain ⟨t, rest, rfl⟩ := List.exists_cons_of_ne_nil he.ne_nil
  rw [bind_ok current_cons]
  exact h t rest he hw

theorem sees {f : Bool → Parser β} (h : ∀ isNext, Finishes gain k (f isNext)) :
    Finishes gain k (sees word >>= f) := by
  rw [Parser.sees, bind_assoc]
  exact .current fun t => (h (t.isAny [word])).atToken

theorem fail (cause : GrammarCause) : Finishes gain k (Parser.fail cause : Parser α) := by
  rw [Parser.fail]
  exact .current fun t ts _ _ => .grammar cause t.line t.col

end Finishes

namespace FinishesAt

theorem advance {f : Token → Parser β} (ht : t.kind ≠ .eof) (h : Finishes (gain - 1) (k - 2) (f t)) :
    FinishesAt t gain k (advance >>= f) := by
  intro ts he hw
  have hpos := t.weight_pos
  rw [weight_cons] at hw
  rw [bind_ok advance_cons]
  refine (h ts (he.tail ht) (by omega)).of_suffix (List.suffix_cons t ts) ?_
  rw [List.length_cons]
  omega

/-- The next token can be taken if it is known to have a text. -/
theorem of_text {p : Parser α} (ht : t.text ≠ "") (h : t.kind ≠ .eof → FinishesAt t gain k p) :
    FinishesAt t gain k p :=
  fun ts he => h (he.kind_ne_eof ht) ts he

theorem of_isAny {p : Parser α} {words : List String} (ht : t.isAny words = true) (hw : "" ∉ words)
    (h : t.kind ≠ .eof → FinishesAt t gain k p) : FinishesAt t gain k p :=
  of_text (Token.text_ne_of_isAny ht hw) h

theorem take (ht : t.kind ≠ .eof) : FinishesAt t 1 k Parser.advance := by
  rw [← bind_pure Parser.advance]
  exact advance ht (.pure t)

end FinishesAt

namespace Parser

theorem expect_finishes (hw : word ≠ "") : Finishes 1 k (expect word) := by
  rw [expect]
  refine .current fun t => ?_
  split
  · rename_i ht
    exact .of_isAny ht (by simpa using hw.symm) .take
  · exact (Finishes.fail _).atToken

/-- What was expected stood in front. -/
theorem expect_ok (h : expect word ts = .ok (t, us)) : t.isAny [word] = true ∧ ts = t :: us := by
  cases ts with
  | nil => cases h
  | cons u rest =>
    cases hu : u.isAny [word] with
    | true =>
      rw [expect_cons hu] at h
      cases h
      exact ⟨hu, rfl⟩
    | false =>
      rw [expect, bind_ok current_cons, if_neg (by simp [hu])] at h
      cases h

theorem identifier_finishes : Finishes 1 k identifier := by
  rw [identifier]
  refine .current fun t => ?_
  split
  · rename_i ht
    exact .take (by rw [ht]; decide)
  · exact (Finishes.fail _).atToken

/-- Taking a token if it is next, and what follows in both cases. -/
theorem accept_finishes {p q : Parser α} (hw : word ≠ "") (hp : Finishes (gain - 1) (k - 2) p)
    (hq : Finishes gain k q) :
    Finishes gain k (accept word >>= fun isNext => if isNext = true then p else q) := by
  intro ts he hweight
  obtain ⟨t, rest, rfl⟩ := List.exists_cons_of_ne_nil he.ne_nil
  cases ht : t.isAny [word] with
  | false =>
    rw [bind_ok (accept_other ht)]
    exact hq _ he hweight
  | true =>
    rw [bind_ok (accept_cons ht)]
    exact FinishesAt.of_isAny (p := advance >>= fun _ => p) ht (by simpa using hw.symm)
      (fun hk => .advance hk hp) rest he hweight

theorem accept_flag_finishes (hw : word ≠ "") : Finishes 0 k (accept word) := by
  have hflag (isNext : Bool) :
      (if isNext = true then pure true else pure false : Parser Bool) = pure isNext := by
    cases isNext <;> rfl
  have h : Finishes 0 k (accept word >>= _) := accept_finishes hw (.pure true) (.pure false)
  simpa only [hflag, bind_pure] using h

theorem skipAny_finishes {words : List String} (hw : "" ∉ words) : Finishes 0 k (skipAny words) := by
  intro ts he hw'
  induction ts with
  | nil => exact absurd rfl he.ne_nil
  | cons t ts ih =>
    cases ht : t.isAny words with
    | false =>
      rw [skipAny_other ht]
      exact .ok (List.suffix_refl _) he (Nat.le_refl _)
    | true =>
      have hk := he.kind_ne_eof (Token.text_ne_of_isAny ht hw)
      rw [weight_cons] at hw'
      rw [skipAny_cons ht]
      refine (ih (he.tail hk) (by omega)).of_suffix (List.suffix_cons t ts) ?_
      rw [List.length_cons]
      omega

variable {close : String} {check between : Parser Unit} {item : Parser α}

/-- A repetition of items ends if it may go round once for each token that is left. -/
theorem itemsUntil_finishes {n : Nat} (hcheck : Finishes 0 k check) (hitem : Finishes 1 k item)
    (hbetween : Finishes 0 k between) (hk : k' ≤ k) (hn : k' ≤ 2 * n + 1) :
    Finishes 0 k' (itemsUntil close check item between n) := by
  induction n generalizing k' with
  | zero =>
    intro ts he hw
    have := he.weight_pos
    omega
  | succ n ih =>
    rw [itemsUntil]
    refine .sees fun isClose => ?_
    split
    · exact .pure []
    · refine (hcheck.mono hk).bind fun _ => (hitem.mono (by omega)).bind fun x =>
        (hbetween.mono (by omega)).bind fun _ => ?_
      exact (ih (by omega) (by omega)).bind fun xs => .pure _

end Parser

end ScriptBridge.AiScript
