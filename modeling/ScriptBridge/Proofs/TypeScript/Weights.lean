import ScriptBridge.Proofs.TypeScript.TokenOrder
import Mathlib.Algebra.Ring.Nat

/-!
# How much is left to read

A token weighs one, and a template weighs one more than all the tokens of its substitutions. What a parser
still has to read is the weight of its tokens from its place on, its load. Splitting an operator changes
no weight, so the load goes down by one at least with each token that is taken.

Splitting leaves numbers and the end alone as well: a numeral among the tokens was there from the start,
and what stands for the end has no text.

* `Token.weight`, `ParserState.load`: what is left to read.
* `Token.Faulty`, `Token.Silent`: numerals without a value, and ends without a text.
* `ParserState.Standing`: states on one of their tokens.
* `Advances.load_le`, `Advances.faulty`, `Advances.standing`: what becomes of these.
* `weight_of_tokenize`: the tokens of a text weigh no more than the text is long, and its end.
-/

namespace ScriptBridge.TypeScript

/-! ## Weights -/

mutual

/-- A token counts for itself, and a template for the tokens of its substitutions too. -/
def Token.weight : Token → Nat
  | .mk kind _ _ _ _ pieces => 1 + if kind = .template then piecesWeight pieces else 0

/-- The weight of the tokens of some substitutions. -/
def piecesWeight : List (List Token × String) → Nat
  | [] => 0
  | (tokens, _) :: pieces => tokensWeight tokens + piecesWeight pieces

/-- The weight of some tokens. -/
def tokensWeight : List Token → Nat
  | [] => 0
  | t :: ts => t.weight + tokensWeight ts

end

namespace Token

variable {t : Token}

theorem weight_eq (t : Token) :
    t.weight = 1 + if t.kind = .template then piecesWeight t.pieces else 0 := by
  cases t
  rw [weight]

theorem weight_template (h : t.kind = .template) : t.weight = 1 + piecesWeight t.pieces := by
  rw [weight_eq, if_pos h]

theorem weight_plain (h : t.kind ≠ .template) : t.weight = 1 := by
  rw [weight_eq, if_neg h]

theorem weight_pos (t : Token) : 0 < t.weight := by
  rw [weight_eq]
  exact Nat.add_pos_left Nat.one_pos _

end Token

theorem piecesWeight_eq (pieces : List (List Token × String)) :
    piecesWeight pieces = (pieces.map fun piece => tokensWeight piece.1).sum := by
  induction pieces with
  | nil => rw [piecesWeight, List.map_nil, List.sum_nil]
  | cons piece pieces ih => rw [piecesWeight, List.map_cons, List.sum_cons, ih]

theorem tokensWeight_eq (ts : List Token) : tokensWeight ts = (ts.map Token.weight).sum := by
  induction ts with
  | nil => rw [tokensWeight, List.map_nil, List.sum_nil]
  | cons t ts ih => rw [tokensWeight, List.map_cons, List.sum_cons, ih]

theorem tokensWeight_append (ts us : List Token) :
    tokensWeight (ts ++ us) = tokensWeight ts + tokensWeight us := by
  simp only [tokensWeight_eq, List.map_append, List.sum_append]

theorem length_le_tokensWeight (ts : List Token) : ts.length ≤ tokensWeight ts := by
  induction ts with
  | nil => exact Nat.zero_le _
  | cons t ts ih =>
    have := t.weight_pos
    rw [List.length_cons, tokensWeight]
    omega

theorem tokensWeight_le_piecesWeight {pieces : List (List Token × String)} {piece : List Token × String}
    (h : piece ∈ pieces) : tokensWeight piece.1 ≤ piecesWeight pieces := by
  induction h with
  | head => exact Nat.le_add_right _ _
  | tail _ _ ih => exact Nat.le_trans ih (Nat.le_add_left _ _)

/-- Tokens that are passed over weigh one at least. -/
theorem tokensWeight_drop {ts : List Token} {i j : Nat} (hij : i ≤ j) (hj : j ≤ ts.length) :
    tokensWeight (ts.drop j) + (j - i) ≤ tokensWeight (ts.drop i) := by
  have hsplit : (ts.drop i).take (j - i) ++ ts.drop j = ts.drop i := by
    rw [← Nat.add_sub_cancel' hij, ← List.drop_drop, Nat.add_sub_cancel' hij, List.take_append_drop]
  have hlength := length_le_tokensWeight ((ts.drop i).take (j - i))
  rw [List.length_take, List.length_drop] at hlength
  rw [← hsplit, tokensWeight_append]
  omega

/-! ## Tokens that are cut -/

theorem tokensWeight_congr {ts us : List Token} (hlen : us.length = ts.length)
    (h : ∀ (i : Nat) (t u : Token), ts[i]? = some t → us[i]? = some u → u.weight = t.weight) :
    tokensWeight us = tokensWeight ts := by
  have hmap : us.map Token.weight = ts.map Token.weight := by
    refine List.ext_getElem (by simpa using hlen) fun i hi hi' => ?_
    rw [List.length_map] at hi hi'
    rw [List.getElem_map, List.getElem_map]
    exact h i _ _ (List.getElem?_eq_getElem hi') (List.getElem?_eq_getElem hi)
  rw [tokensWeight_eq, tokensWeight_eq, hmap]

theorem piecesWeight_set {pieces : List (List Token × String)} {k : Nat} {tokens tokens' : List Token}
    {literal : String} (hk : pieces[k]? = some (tokens, literal))
    (h : tokensWeight tokens' = tokensWeight tokens) :
    piecesWeight (pieces.set k (tokens', literal)) = piecesWeight pieces := by
  obtain ⟨hlt, hget⟩ := List.getElem?_eq_some_iff.mp hk
  rw [piecesWeight_eq, piecesWeight_eq, List.map_set, h]
  congr 1
  have hlt : k < (pieces.map fun piece => tokensWeight piece.1).length := by simpa
  have hsame : tokensWeight tokens = (pieces.map fun piece => tokensWeight piece.1)[k] := by
    rw [List.getElem_map, hget]
  rw [hsame, List.set_getElem_self]

theorem Cut.weight_eq {t t' : Token} (h : Cut t t') : t'.weight = t.weight := by
  induction h with
  | same => rfl
  | @angle t t' _ _ ih =>
    rw [ih, Token.weight_eq, Token.weight_eq]
    rfl
  | @piece t t' k tokens tokens' literal hk hlen _ _ ih ihrest =>
    rw [ihrest, Token.weight_eq, Token.weight_eq]
    simp only [piecesWeight_set hk (tokensWeight_congr hlen ih)]

/-- A numeral without a value stands in a token or in a substitution of it. -/
inductive Token.Faulty (fault : NumeralFault) : Token → Prop
  | number {t : Token} (kind : t.kind = .number) (value : numericValue t.text = .error fault) :
      Faulty fault t
  | inner {t u : Token} {piece : List Token × String} (hpiece : piece ∈ t.pieces) (hu : u ∈ piece.1)
      (h : Faulty fault u) : Faulty fault t

/-- Splitting makes no numerals. -/
theorem Cut.faulty {t t' : Token} {fault : NumeralFault} (h : Cut t t') (hf : t'.Faulty fault) :
    t.Faulty fault := by
  induction h with
  | same => exact hf
  | @angle t t' hsplit _ ih =>
    cases ih hf with
    | number kind value =>
      have hop : t.kind = .op := by
        simp only [Token.canSplit, Bool.and_eq_true, beq_iff_eq] at hsplit
        exact hsplit.1.1
      cases hop.symm.trans kind
    | inner hpiece hu h => exact .inner hpiece hu h
  | @piece t t' k tokens tokens' literal hk hlen _ _ ih ihrest =>
    cases ihrest hf with
    | number kind value => exact .number kind value
    | @inner _ u piece hpiece hu h =>
      obtain hpiece | rfl := List.mem_or_eq_of_mem_set hpiece
      · exact .inner hpiece hu h
      · obtain ⟨i, hi, rfl⟩ := List.getElem_of_mem hu
        have hi' : i < tokens.length := hlen ▸ hi
        exact .inner (List.mem_of_getElem? hk) (List.getElem_mem hi')
          (ih i _ _ (List.getElem?_eq_getElem hi') (List.getElem?_eq_getElem hi) h)

/-- A token that stands for the end has no text, and none in the substitutions of a template has. -/
inductive Token.Silent : Token → Prop
  | intro {t : Token} (text : t.kind = .eof → t.text = "")
      (inner : t.kind = .template → ∀ u ∈ innerTokens t.pieces, Silent u) : Silent t

theorem Token.Silent.text {t : Token} : t.Silent → t.kind = .eof → t.text = ""
  | intro text _ => text

theorem Token.Silent.inner {t : Token} (kind : t.kind = .template) :
    t.Silent → ∀ u ∈ innerTokens t.pieces, u.Silent
  | intro _ inner => inner kind

theorem Token.silent_of_plain {t : Token} (hend : t.kind ≠ .eof) (kind : t.kind ≠ .template) : t.Silent :=
  .intro (absurd · hend) (absurd · kind)

theorem Cut.silent {t t' : Token} (h : Cut t t') (ht : t.Silent) : t'.Silent := by
  induction h with
  | same => exact ht
  | @angle t t' hsplit _ ih =>
    simp only [Token.canSplit, Bool.and_eq_true, beq_iff_eq] at hsplit
    have hop : t.behindAngle.kind = .op := hsplit.1.1
    exact ih (Token.silent_of_plain (by rw [hop]; decide) (by rw [hop]; decide))
  | @piece t t' k tokens tokens' literal hk hlen _ _ ih ihrest =>
    have hinner (kind : t.kind = .template) {piece : List Token × String} (hpiece : piece ∈ t.pieces) :
        ∀ u ∈ piece.1, u.Silent :=
      fun u hu => ht.inner kind u (List.mem_flatMap.mpr ⟨piece, hpiece, hu⟩)
    refine ihrest (.intro ht.text fun (kind : t.kind = .template) u hu => ?_)
    obtain ⟨piece, hpiece, hu⟩ := List.mem_flatMap.mp hu
    obtain hpiece | rfl := List.mem_or_eq_of_mem_set hpiece
    · exact hinner kind hpiece u hu
    · obtain ⟨i, hi, rfl⟩ := List.getElem_of_mem hu
      have hi' : i < tokens.length := hlen ▸ hi
      exact ih i _ _ (List.getElem?_eq_getElem hi') (List.getElem?_eq_getElem hi)
        (hinner kind (List.mem_of_getElem? hk) _ (List.getElem_mem hi'))

/-! ## States -/

namespace ParserState

/-- A state on one of its tokens, which are in order and end without a text. -/
structure Standing (s : ParserState) : Prop where
  sound : s.Sound
  silent : ∀ t ∈ s.tokens.toList, t.Silent

/-- The weight of the tokens that are left. -/
def load (s : ParserState) : Nat :=
  tokensWeight (s.tokens.toList.drop s.pos)

variable {s s' : ParserState}

theorem load_of_inside (h : s.pos < s.tokens.size) : s.load = s.next.weight + s.behind.load := by
  have hi : s.pos < s.tokens.toList.length := h
  have hnext : s.tokens.toList[s.pos] = s.next := by
    rw [next, Array.getElem?_eq_getElem h]
    rfl
  rw [load, List.drop_eq_getElem_cons hi, tokensWeight, hnext]
  rfl

theorem Standing.load_pos (h : s.Standing) : 0 < s.load := by
  have := s.next.weight_pos
  rw [load_of_inside h.sound.inside]
  omega

theorem Standing.next_mem (h : s.Standing) : s.next ∈ s.tokens.toList :=
  Array.mem_toList_iff.mpr (Array.mem_of_getElem? h.sound.getElem?_pos)

/-- A token with a text does not stand for the end. -/
theorem Standing.ne_eof_of_text (h : s.Standing) (ht : s.next.text ≠ "") : s.next.kind ≠ .eof :=
  fun hk => ht ((h.silent _ h.next_mem).text hk)

theorem sound_of_mem {start stop : Nat} {pieces : List (List Token × String)}
    (hframed : Framed start stop pieces) (hsturdy : ∀ u ∈ innerTokens pieces, u.Sturdy)
    {piece : List Token × String} (hpiece : piece ∈ pieces) (nextId : Nat) :
    ({ tokens := piece.1.toArray, nextId } : ParserState).Sound := by
  induction pieces with
  | nil => cases hpiece
  | cons first rest ih =>
    obtain rfl | hpiece := List.mem_cons.mp hpiece
    · exact sound_of_framed hframed hsturdy nextId
    · obtain ⟨within, apart, ends⟩ := hframed
      refine ih ⟨(List.forall_mem_append.mp within).2, (List.pairwise_append.mp apart).2.1,
        (List.forall_mem_cons.mp ends).2⟩ (List.forall_mem_append.mp hsturdy).2 hpiece

/-- The tokens of a substitution are tokens to start on. -/
theorem Standing.substitution (h : s.Standing) (hk : s.next.kind = .template)
    {piece : List Token × String} (hpiece : piece ∈ s.next.pieces) (nextId : Nat) :
    ({ tokens := piece.1.toArray, nextId } : ParserState).Standing :=
  ⟨sound_of_mem (h.sound.next_sturdy.framed hk) (h.sound.next_sturdy.inner hk) hpiece nextId,
    fun u hu => (h.silent _ h.next_mem).inner hk u (List.mem_flatMap.mpr ⟨piece, hpiece, hu⟩)⟩

/-- They weigh less than the template. -/
theorem Standing.weight_lt (h : s.Standing) (hk : s.next.kind = .template)
    {piece : List Token × String} (hpiece : piece ∈ s.next.pieces) : tokensWeight piece.1 < s.load := by
  have hle := tokensWeight_le_piecesWeight hpiece
  rw [load_of_inside h.sound.inside, Token.weight_template hk]
  omega

end ParserState

section
variable {s s' : ParserState}

theorem Advances.standing (h : Advances s s') (hs : s.Standing) (hinside : s'.pos < s'.tokens.size) :
    s'.Standing := by
  refine ⟨h.sound hs.sound hinside, fun t' ht' => ?_⟩
  obtain ⟨i, hi', rfl⟩ := List.getElem_of_mem ht'
  have hi : i < s.tokens.size := h.tokens.size_eq ▸ hi'
  have hcut := h.tokens.cut i _ _ (Array.getElem?_eq_getElem hi) (Array.getElem?_eq_getElem hi')
  exact hcut.silent (hs.silent _ (Array.mem_toList_iff.mpr (Array.getElem_mem hi)))

/-- With each token that is taken the load goes down. -/
theorem Advances.load_le (h : Advances s s') (hs' : s'.Standing) :
    s'.load + (s'.pos - s.pos) ≤ s.load := by
  have hlen : s'.tokens.toList.length = s.tokens.toList.length := h.tokens.size_eq
  have hcut : tokensWeight (s'.tokens.toList.drop s'.pos) =
      tokensWeight (s.tokens.toList.drop s'.pos) := by
    refine tokensWeight_congr (by rw [List.length_drop, List.length_drop, hlen]) fun i t u ht hu => ?_
    rw [List.getElem?_drop, Array.getElem?_toList] at ht hu
    exact (h.tokens.cut _ t u ht hu).weight_eq
  rw [ParserState.load, hcut]
  exact tokensWeight_drop h.pos_le (hlen ▸ Nat.le_of_lt hs'.sound.inside)

/-- A numeral without a value among the tokens was there before. -/
theorem Advances.faulty {fault : NumeralFault} (h : Advances s s')
    (hf : ∃ t ∈ s'.tokens.toList, t.Faulty fault) : ∃ t ∈ s.tokens.toList, t.Faulty fault := by
  obtain ⟨t', ht', hf⟩ := hf
  obtain ⟨i, hi', rfl⟩ := List.getElem_of_mem ht'
  have hi : i < s.tokens.size := h.tokens.size_eq ▸ hi'
  have hcut := h.tokens.cut i _ _ (Array.getElem?_eq_getElem hi) (Array.getElem?_eq_getElem hi')
  exact ⟨_, Array.mem_toList_iff.mpr (Array.getElem_mem hi), hcut.faulty hf⟩

end

/-! ## The tokens of a text -/

section
variable {source : List Char}

mutual

theorem Tiled.weight_le {start stop : Nat} {tokens : List Token} :
    Tiled source start stop tokens → tokensWeight tokens + start ≤ stop + 1
  | @Tiled.eof _ start stop t le _ _ _ _ kind _ => by
    have hweight : t.weight = 1 := Token.weight_plain (by rw [kind]; decide)
    rw [tokensWeight, tokensWeight, hweight]
    omega
  | @Tiled.token _ start i j stop t rest le lt _ _ _ _ lexeme tiled => by
    have := lexeme.weight_le lt
    have := tiled.weight_le
    rw [tokensWeight]
    omega

theorem Lexeme.weight_le {i j : Nat} {t : Token} :
    Lexeme source i j t → i < j → t.weight + i ≤ j
  | .plain kind _ _, lt => by
    have hkind : t.kind ≠ .template := by
      obtain kind | kind | kind := kind <;> rw [kind] <;> decide
    rw [Token.weight_plain hkind]
    omega
  | .string kind _, lt => by
    rw [Token.weight_plain (by rw [kind]; decide)]
    omega
  | .template kind _ _ tiled, _ => by
    have := tiled.weight_le
    rw [Token.weight_template kind]
    omega

theorem TemplateTiled.weight_le {i stop : Nat} {pieces : List (List Token × String)} :
    TemplateTiled source i stop pieces → piecesWeight pieces + i ≤ stop
  | .close _ => by
    rw [piecesWeight]
    omega
  | .char _ _ _ rest => by
    have := rest.weight_le
    omega
  | .escape _ rest => by
    have := rest.weight_le
    omega
  | .substitution _ _ tiled _ _ rest => by
    have := tiled.weight_le
    have := rest.weight_le
    rw [piecesWeight]
    omega

end

mutual

theorem Tiled.silent {start stop : Nat} {tokens : List Token} :
    Tiled source start stop tokens → ∀ t ∈ tokens, t.Silent
  | .eof _ _ _ _ _ kind text =>
    List.forall_mem_singleton.mpr (.intro (fun _ => text) fun h => absurd (kind.symm.trans h) (by decide))
  | .token _ _ _ _ _ _ lexeme tiled => List.forall_mem_cons.mpr ⟨lexeme.silent, tiled.silent⟩

theorem Lexeme.silent {i j : Nat} {t : Token} : Lexeme source i j t → t.Silent
  | .plain kind _ _ => by
    refine Token.silent_of_plain ?_ ?_ <;> obtain kind | kind | kind := kind <;> rw [kind] <;> decide
  | .string kind _ => Token.silent_of_plain (by rw [kind]; decide) (by rw [kind]; decide)
  | .template kind _ _ tiled =>
    .intro (fun h => absurd (kind.symm.trans h) (by decide)) fun _ => tiled.silent

theorem TemplateTiled.silent {i stop : Nat} {pieces : List (List Token × String)} :
    TemplateTiled source i stop pieces → ∀ u ∈ innerTokens pieces, u.Silent
  | .close _ => List.forall_mem_nil _
  | .char _ _ _ rest => rest.silent
  | .escape _ rest => rest.silent
  | .substitution _ _ tiled _ _ rest => List.forall_mem_append.mpr ⟨tiled.silent, rest.silent⟩

end

variable {text : String} {tokens : List Token}

/-- The tokens of a text weigh no more than the text is long, and its end. -/
theorem weight_of_tokenize (h : tokenize text = .ok tokens) : tokensWeight tokens ≤ text.length + 1 :=
  (tiled_of_tokenize h).weight_le

/-- The parser starts on the tokens of a text. -/
theorem standing_of_tokenize (h : tokenize text = .ok tokens) (nextId : Nat) :
    ({ tokens := tokens.toArray, nextId } : ParserState).Standing :=
  ⟨sound_of_tokenize h nextId, (tiled_of_tokenize h).silent⟩

end

end ScriptBridge.TypeScript
