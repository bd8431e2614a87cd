import ScriptBridge.TypeScript.Token.Lexer

/-!
# How tokens tile a text

`Tiled source start stop tokens` says that tokens cover the text from one offset to another: between them
there is nothing but blanks and comments, the text of each is what stands at its place, and lines and
columns are those of the offsets. It says so of the substitutions of templates as well, at offsets of the
whole text, each between its `${` and the brace that matches it.

* `lineAt`, `colAt`, `regionOf`: places by their offsets.
* `Gap`: what stands between tokens.
* `braceDepth`: the braces that are open behind tokens.
* `Tiled`, `Lexeme`, `TemplateTiled`: tokens, a single one, and what is in a template.
* `Tiled.pairwise`: ranges of tokens increase and are disjoint.
-/

namespace ScriptBridge.TypeScript

/-! ## Places -/

/-- The line of an offset: one more than the newlines before it. -/
def lineAt (source : List Char) (offset : Nat) : Nat :=
  (source.take offset).count '\n' + 1

/-- The column of an offset: one more than its distance from the last newline before it. -/
def colAt (source : List Char) (offset : Nat) : Nat :=
  ((source.take offset).reverse.takeWhile (· != '\n')).length + 1

instance (source : List Char) (offset : Nat) : IsLine (lineAt source offset) :=
  .succ _

/-- The region between two offsets. -/
def regionOf (source : List Char) (start stop : Nat) : Span where
  start := start
  stop := stop
  line := lineAt source start
  col := colAt source start
  endLine := lineAt source stop
  endCol := colAt source stop

/-- The characters between two offsets. -/
def slice (source : List Char) (start stop : Nat) : List Char :=
  (source.drop start).take (stop - start)

/-! ## What stands between tokens -/

/-- A text goes on with another one behind blanks and comments. A line comment reaches to the end of its
line, a block comment to the first mark that closes it. -/
inductive Gap : List Char → List Char → Prop
  | done (cs : List Char) : Gap cs cs
  | blank {c : Char} {cs rest : List Char} (hc : isSpacing c = true) (h : Gap cs rest) :
      Gap (c :: cs) rest
  | line {body cs rest : List Char} (hbody : '\n' ∉ body) (hend : cs = [] ∨ cs.head? = some '\n')
      (h : Gap cs rest) : Gap ('/' :: '/' :: (body ++ cs)) rest
  | block {body cs rest : List Char} (hbody : ¬ ['*', '/'] <:+: body ++ ['*']) (h : Gap cs rest) :
      Gap ('/' :: '*' :: (body ++ '*' :: '/' :: cs)) rest

/-! ## Braces -/

/-- How many braces are open behind tokens before which `depth` are; `none` if one is closed that was not
opened. -/
def braceDepth : Nat → List Token → Option Nat
  | depth, [] => some depth
  | depth, t :: ts =>
    if t.kind == .op && t.text == "\x7b" then braceDepth (depth + 1) ts
    else if t.kind == .op && t.text == "\x7d" then
      match depth with
      | 0 => none
      | depth + 1 => braceDepth depth ts
    else braceDepth depth ts

/-! ## Tokens -/

mutual

/-- Tokens cover the text from one offset to another. The last one is empty and stands for the end. -/
inductive Tiled (source : List Char) : Nat → Nat → List Token → Prop
  | eof {start stop : Nat} {t : Token} (le : start ≤ stop) (bound : stop ≤ source.length)
      (gap : Gap (source.drop start) (source.drop stop))
      (newline : t.newlineBefore = (slice source start stop).contains '\n')
      (span : t.span = regionOf source stop stop) (kind : t.kind = .eof) (text : t.text = "") :
      Tiled source start stop [t]
  | token {start i j stop : Nat} {t : Token} {rest : List Token} (le : start ≤ i) (lt : i < j)
      (bound : j ≤ source.length) (gap : Gap (source.drop start) (source.drop i))
      (newline : t.newlineBefore = (slice source start i).contains '\n')
      (span : t.span = regionOf source i j) (lexeme : Lexeme source i j t)
      (tiled : Tiled source j stop rest) : Tiled source start stop (t :: rest)

/-- What a token other than the last one says of the text between two offsets. -/
inductive Lexeme (source : List Char) : Nat → Nat → Token → Prop
  | plain {i j : Nat} {t : Token} (kind : t.kind = .number ∨ t.kind = .ident ∨ t.kind = .op)
      (text : t.text.toList = slice source i j) (pieces : t.pieces = []) : Lexeme source i j t
  | string {i j : Nat} {t : Token} (kind : t.kind = .string) (pieces : t.pieces = []) :
      Lexeme source i j t
  | template {i j : Nat} {t : Token} (kind : t.kind = .template)
      (text : t.text.toList = slice source i j) (mark : source[i]? = some '\x60')
      (tiled : TemplateTiled source (i + 1) j t.pieces) : Lexeme source i j t

/-- The text of a template from an offset to behind its closing mark: characters, escapes, and
substitutions from a dollar sign and a brace to the brace that matches it. -/
inductive TemplateTiled (source : List Char) : Nat → Nat → List (List Token × String) → Prop
  | close {i : Nat} (mark : source[i]? = some '\x60') : TemplateTiled source i (i + 1) []
  | char {i stop : Nat} {pieces : List (List Token × String)} {x : Char} (char : source[i]? = some x)
      (plain : x ≠ '\x60' ∧ x ≠ '\\') (single : x = '$' → source[i + 1]? ≠ some '\x7b')
      (rest : TemplateTiled source (i + 1) stop pieces) : TemplateTiled source i stop pieces
  | escape {i stop : Nat} {pieces : List (List Token × String)} (mark : source[i]? = some '\\')
      (rest : TemplateTiled source (i + 2) stop pieces) : TemplateTiled source i stop pieces
  | substitution {i j stop : Nat} {tokens : List Token} {literal : String}
      {pieces : List (List Token × String)} (dollar : source[i]? = some '$')
      (opening : source[i + 1]? = some '\x7b') (tiled : Tiled source (i + 2) j tokens)
      (balanced : braceDepth 0 tokens = some 0) (closing : source[j]? = some '\x7d')
      (rest : TemplateTiled source (j + 1) stop pieces) :
      TemplateTiled source i stop ((tokens, literal) :: pieces)

end

/-- All tokens start at or behind the offset from which they reach. -/
theorem Tiled.start_le {source : List Char} {start stop : Nat} {tokens : List Token} :
    Tiled source start stop tokens → ∀ t ∈ tokens, start ≤ t.span.start
  | .eof le _ _ _ span _ _, t, ht => by
    rw [List.mem_singleton.mp ht, span]
    exact le
  | .token le lt _ _ _ span _ tiled, t, ht => by
    obtain rfl | ht := List.mem_cons.mp ht
    · rw [span]
      exact le
    · exact Nat.le_trans le (Nat.le_trans (Nat.le_of_lt lt) (tiled.start_le t ht))

/-- The ranges of tokens increase and are disjoint. -/
theorem Tiled.pairwise {source : List Char} {start stop : Nat} {tokens : List Token} :
    Tiled source start stop tokens → tokens.Pairwise fun t u => t.span.stop ≤ u.span.start
  | .eof .. => List.pairwise_singleton _ _
  | .token _ _ _ _ _ span _ tiled => by
    refine List.pairwise_cons.mpr ⟨fun u hu => ?_, tiled.pairwise⟩
    rw [span]
    exact tiled.start_le u hu

end ScriptBridge.TypeScript
