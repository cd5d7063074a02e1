import Barrage.Proofs.Expression.Runs
import Barrage.Proofs.Pattern.Reading

/-!
The expressions of a pattern and the text that they are compiled from. Each node has the expression
of what its element keeps of the character data directly inside it, and a document that is refused
for an expression has an element that has none.
-/

set_option autoImplicit false

namespace Barrage

open Markup
open Text (kept isBlankText BlankOutside)

namespace Tree

def expressions (t : Tree) : List Expression := t.nodes.toList.map (·.expression)

theorem expressions_push (t : Tree) (n : Node) (parent? : Option NodeId) :
    (t.push n parent?).expressions = t.expressions ++ [n.expression] :=
  map_nodes_push (fun _ _ _ => rfl) t n parent?

end Tree

namespace Draft

variable {d d' : Draft}

/-! ## Single elements -/

theorem readNode_expression {e : Element} {n : Node} (ended : Ends (readNode e) d n d') :
    Expression.parse e.text = .ok n.expression := by
  unfold readNode at ended
  split at ended
  · exact absurd ended Ends.not_throw
  · obtain ⟨m, c, -, rest⟩ := Ends.bind_iff.1 ended
    dsimp only at rest
    split at rest
    · exact absurd rest Ends.not_throw
    · next compiled =>
      obtain ⟨rfl, -⟩ := Ends.pure_iff.1 rest
      exact compiled

theorem readAttribute_not_expression {element name : String} {n : Node} {a : Markup.Attribute}
    {span : Span} {error : ExpressionError} :
    ¬ Fails (readAttribute element n a) d (.invalidExpression name span error) d' := by
  intro failed
  unfold readAttribute at failed
  split at failed
  · split at failed
    · split at failed <;> cases failed
    · split at failed <;> cases failed
  · split at failed <;> cases failed
  · cases failed
  · cases failed

theorem readAttributes_not_expression {element name : String} {attributes : List Markup.Attribute}
    {n : Node} {span : Span} {error : ExpressionError} :
    ¬ Fails (attributes.foldlM (readAttribute element) n) d
      (.invalidExpression name span error) d' := by
  induction attributes generalizing d n with
  | nil => exact Fails.not_pure
  | cons a rest ih =>
    rw [List.foldlM_cons, Fails.bind_iff]
    rintro (here | ⟨m, b, -, later⟩)
    · exact readAttribute_not_expression here
    · exact ih later

theorem Refused.expression {e : Element} {name : String} {span : Span} {error : ExpressionError}
    (refused : Refused e (.invalidExpression name span error)) :
    name = e.name ∧ span = e.span ∧ Expression.parse e.text = .error error := by
  obtain ⟨d, d', failed⟩ := refused
  unfold readNode at failed
  split at failed
  · cases failed
  · obtain attributes | ⟨m, c, -, rest⟩ := Fails.bind_iff.1 failed
    · exact absurd attributes readAttributes_not_expression
    · dsimp only at rest
      split at rest
      · next compiled =>
        cases rest
        exact ⟨rfl, rfl, compiled⟩
      · exact absurd rest Fails.not_pure

/-! ## All elements of a document -/

theorem along_expressions : Along fun es d d' => ∃ more,
    d'.tree.expressions = d.tree.expressions ++ more ∧
      List.Forall₂ (fun e x => Expression.parse e.text = .ok x) es more where
  start _ := ⟨[], (List.append_nil _).symm, .nil⟩
  more := by
    rintro es more d d' d'' ⟨first, grown, compiled⟩ ⟨next, grownMore, compiledMore⟩
    refine ⟨first ++ next, ?_, ?_⟩
    · rw [grownMore, grown, List.append_assoc]
    · exact List.rel_append compiled compiledMore
  single := by
    intro e n d b d' parent? id node pushed
    obtain ⟨-, rfl⟩ := Prod.mk.inj (Ends.modifyGet_iff.1 pushed)
    refine ⟨[n.expression], ?_, .cons (readNode_expression node) .nil⟩
    rw [Tree.expressions_push, readNode_tree node]

/-- The expressions of a document that can be read are those of the texts of its elements; it is
refused for an expression only if an element's text has none. -/
theorem compiled_ofDocument {root : Element} :
    (∀ d, ofDocument root = (.ok (), d) →
      List.Forall₂ (fun e x => Expression.parse e.text = .ok x)
        root.elements d.tree.expressions) ∧
    (∀ d name span error, ofDocument root = (.error (.invalidExpression name span error), d) →
      ∃ e ∈ root.elements, name = e.name ∧ span = e.span ∧
        Expression.parse e.text = .error error) := by
  constructor
  · intro d read
    obtain ⟨-, more, grown, compiled⟩ := along_expressions.ofDocument read
    rw [grown]
    exact compiled
  · intro d name span error read
    rcases refused_ofDocument read with wrong | ⟨e, inside, refused⟩
    · cases wrong
    · exact ⟨e, inside, refused.expression⟩

end Draft

/-! ## All character data -/

/-- An element keeps the runs of character data directly inside it that are not blank. What is
compiled from these is what the whole of the runs compiles to exactly if only empty runs are left
out, or if the whole is not too long and the others that are left out stand outside the ones that
are kept. As long as it is not too long, it still says the same if what is left out are blanks
between words. -/
theorem compiled_of_characterData {tokens : Array SpannedToken} {source? : Option SourceMap}
    {root : Element} {depth : Nat}
    (read : readDocument (.ofTokens tokens source?) = (.ok root, depth)) :
    List.Forall₂ (fun (e : Element) (runs : List String) =>
        e.text = String.join (kept runs) ∧
        (Expression.parse e.text = Expression.parse (String.join runs) ↔
          (∀ run ∈ runs, isBlankText run → run = "") ∨
            ((String.join runs).utf8ByteSize ≤ Expression.maxLength ∧ BlankOutside runs)) ∧
        ((String.join runs).utf8ByteSize ≤ Expression.maxLength →
          Expr.Spaced (Text.trim e.text.toList) (Text.trim (String.join runs).toList) →
          Expression.meaning e.text = Expression.meaning (String.join runs)))
      root.elements (characterData tokens.toList) ∧
    (∀ d, Draft.ofDocument root = (.ok (), d) →
      List.Forall₂ (fun e x => Expression.parse e.text = .ok x)
        root.elements d.tree.expressions) ∧
    (∀ d name span error,
      Draft.ofDocument root = (.error (.invalidExpression name span error), d) →
      ∃ e ∈ root.elements, name = e.name ∧ span = e.span ∧
        Expression.parse e.text = .error error) := by
  refine ⟨?_, Draft.compiled_ofDocument⟩
  have texts := texts_eq_kept read
  rw [← List.forall₂_eq_eq_eq, List.forall₂_map_left_iff, List.forall₂_map_right_iff] at texts
  refine texts.imp fun e runs same => ?_
  have text : e.text = String.join (kept runs) := congrArg String.join same
  refine ⟨text, ?_, fun short spaced => ?_⟩
  · rw [text]
    exact Expression.parse_kept_iff
  · refine Expression.meaning_spaced ?_ short spaced
    rw [text]
    exact (Expression.size_join_kept_le runs).trans short

def numbersApart : Array SpannedToken :=
  ([.openTag "wait", .closeTag, .text "1", .cdata " ", .text "2", .endTag "wait",
    .endOfInput].map fun t => ⟨t, Span.nowhere⟩).toArray

def numbersJoined : Element :=
  .mk "wait" [] [.text "1" Span.nowhere, .text "2" Span.nowhere] Span.nowhere

theorem compiled_of_numbersApart :
    readDocument (.ofTokens numbersApart) = (.ok numbersJoined, 1) ∧
    characterData numbersApart.toList = [["1", " ", "2"]] ∧
    numbersJoined.text = "12" ∧ Expression.parse "12" ≠ Expression.parse "1 2" := by
  have read : readDocument (.ofTokens numbersApart) = (.ok numbersJoined, 1) := by
    rw [readDocument_ofTokens]
    rfl
  have runs : characterData numbersApart.toList = [["1", " ", "2"]] := by rfl
  have compiled := (compiled_of_characterData read).1
  rw [runs] at compiled
  obtain ⟨⟨-, same, -⟩, -⟩ := List.forall₂_cons.1 compiled
  have joined : numbersJoined.text = "12" := by decide
  refine ⟨read, runs, joined, ?_⟩
  intro compiledSame
  rcases same.1 (joined ▸ compiledSame) with empty | ⟨-, outside⟩
  · exact absurd (empty " " (by decide) (by decide)) (by decide)
  · exact absurd (outside ["1"] " " ["2"] rfl (by decide) (by decide)) (by decide)

end Barrage
